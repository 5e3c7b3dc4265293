import Asupersync.Trace.Canonicalize

/-!
# The shape of canonical traces

What the layers of `canonicalize` look like and which data of a trace its
fingerprint depends on.

**Results.**  `foata_shape`: layers consist of independent events, every event
above the bottom layer depends on one just below, the flattened layers are a
legal reordering of the trace, the depth is the length of the longest chain of
dependent events, and the fingerprint is that of the canonical form and does not
change under swaps of independent neighbours.
-/

namespace Asupersync

open Lib.TraceTheory List

/-- No two events of the trace have the same sequence number. -/
def DistinctSeq (w : List TraceEvent) : Prop := w.Pairwise (fun a b => a.seq ≠ b.seq)

instance : DecidablePred DistinctSeq :=
  fun w => inferInstanceAs (Decidable (w.Pairwise (fun a b => a.seq ≠ b.seq)))

/-- Finitely many swaps of adjacent independent events. -/
abbrev TraceSwaps : List TraceEvent → List TraceEvent → Prop := Swaps Indep

variable {w w' : List TraceEvent}

theorem DistinctSeq.nodup (h : DistinctSeq w) : w.Nodup :=
  h.imp (fun hseq heq => hseq (congrArg TraceEvent.seq heq))

theorem DistinctSeq.perm (h : DistinctSeq w) (hperm : w.Perm w') : DistinctSeq w' :=
  (hperm.pairwise_iff (fun {_ _} hseq => Ne.symm hseq)).mp h

/-! ## Layers -/

variable {assigned : List (TraceEvent × Nat)}

theorem le_maxLayer {p : TraceEvent × Nat} (hp : p ∈ assigned) : p.2 ≤ maxLayer assigned := by
  unfold maxLayer
  induction assigned using reverseRecOn with
  | nil => cases hp
  | append_singleton before q ih =>
    rw [foldl_append]
    rcases mem_append.mp hp with hold | hlast
    · exact (ih hold).trans (Nat.le_max_left _ _)
    · rw [mem_singleton.mp hlast]
      exact Nat.le_max_right _ _

theorem exists_maxLayer (h : assigned ≠ []) : ∃ p ∈ assigned, p.2 = maxLayer assigned := by
  unfold maxLayer
  induction assigned using reverseRecOn with
  | nil => exact (h rfl).elim
  | append_singleton before q ih =>
    rw [foldl_append]
    simp only [foldl_cons, foldl_nil]
    rcases Nat.le_total (before.foldl (fun layer p => max layer p.2) 0) q.2 with hle | hle
    · exact ⟨q, by simp, (max_eq_right hle).symm⟩
    · rw [max_eq_left hle]
      by_cases hbefore : before = []
      · subst hbefore
        exact ⟨q, by simp, Nat.le_antisymm hle (Nat.zero_le _)⟩
      · obtain ⟨p, hp, hmax⟩ := ih hbefore
        exact ⟨p, mem_append_left _ hp, hmax⟩

theorem maxLayer_perm {assigned' : List (TraceEvent × Nat)} (h : assigned.Perm assigned') :
    maxLayer assigned = maxLayer assigned' := by
  refine h.foldl_eq' ?_ 0
  omega

/-- A layer of the canonical form. -/
def sortedLayer (w : List TraceEvent) (k : Nat) : List TraceEvent :=
  (layerEvents (assignLayers Indep w) k).insertionSort eventLe

theorem depth_canonicalize (w : List TraceEvent) :
    (canonicalize w).depth = if w.length = 0 then 0 else maxLayer (assignLayers Indep w) + 1 := by
  cases w with
  | nil => rfl
  | cons a w => simp [FoataTrace.depth, canonicalize]

theorem layers_canonicalize (w : List TraceEvent) :
    (canonicalize w).layers = (range (canonicalize w).depth).map (sortedLayer w) := by
  rw [depth_canonicalize]
  cases w with
  | nil => rfl
  | cons a w => rfl

variable {k : Nat} {e : TraceEvent}

theorem depth_congr (hlength : w.length = w'.length)
    (hmax : maxLayer (assignLayers Indep w) = maxLayer (assignLayers Indep w')) :
    (canonicalize w).depth = (canonicalize w').depth := by
  rw [depth_canonicalize, depth_canonicalize, hlength, hmax]

theorem lt_depth (h : (e, k) ∈ assignLayers Indep w) : k < (canonicalize w).depth := by
  have hlength := length_pos_of_mem h
  rw [length_assignLayers] at hlength
  rw [depth_canonicalize, if_neg hlength.ne']
  exact Nat.lt_succ_of_le (le_maxLayer h)

theorem eq_sortedLayer {layer : List TraceEvent} (h : (canonicalize w).layers[k]? = some layer) :
    layer = sortedLayer w k := by
  rw [layers_canonicalize, List.getElem?_map] at h
  obtain ⟨k', hk', rfl⟩ := Option.map_eq_some_iff.mp h
  obtain ⟨hlt, hget⟩ := List.getElem?_eq_some_iff.mp hk'
  rw [← hget, List.getElem_range]

theorem mem_layerEvents : e ∈ layerEvents assigned k ↔ (e, k) ∈ assigned := by
  simp [layerEvents]

theorem mem_sortedLayer : e ∈ sortedLayer w k ↔ (e, k) ∈ assignLayers Indep w := by
  unfold sortedLayer
  rw [mem_insertionSort, mem_layerEvents]

theorem pairwise_layerEvents (w : List TraceEvent) (k : Nat) :
    (layerEvents (assignLayers Indep w) k).Pairwise Indep := by
  refine pairwise_map.mpr ?_
  refine ((pairwise_assignLayers w).filter _).imp_of_mem ?_
  intro p q hp hq hlt
  have hpk : p.2 = k := by simpa using (mem_filter.mp hp).2
  have hqk : q.2 = k := by simpa using (mem_filter.mp hq).2
  by_contra hdep
  have := hlt hdep
  omega

theorem pairwise_sortedLayer (w : List TraceEvent) (k : Nat) : (sortedLayer w k).Pairwise Indep :=
  ((perm_insertionSort eventLe _).pairwise_iff (fun {a b} => independent_symm a b)).mpr
    (pairwise_layerEvents w k)

/-! ## The flattened layers -/

theorem flatten_perm (w : List TraceEvent) : (canonicalize w).flatten.Perm w := by
  unfold FoataTrace.flatten
  rw [layers_canonicalize, ← flatMap_def]
  let n := (canonicalize w).depth
  have hsorted : ((range n).flatMap (sortedLayer w)).Perm
      ((range n).flatMap (layerEvents (assignLayers Indep w))) :=
    Perm.flatMap_left _ (fun k _ => perm_insertionSort eventLe _)
  have hcollected : ((range n).flatMap (layerEvents (assignLayers Indep w))).Perm
      (((assignLayers Indep w).filter (fun p => p.2 < n)).map Prod.fst) := by
    have hperm := (perm_flatten_layers (assignLayers Indep w) n).map Prod.fst
    rw [← flatMap_def, map_flatMap] at hperm
    exact hperm
  have hall : (assignLayers Indep w).filter (fun p => p.2 < n) = assignLayers Indep w := by
    refine filter_eq_self.mpr ?_
    intro p hp
    exact decide_eq_true (lt_depth hp)
  rw [hall, map_fst_assignLayers] at hcollected
  exact hsorted.trans hcollected

/-- The canonical form is a legal reordering of the trace. -/
theorem swaps_flatten (h : DistinctSeq w) : TraceSwaps w (canonicalize w).flatten := by
  refine swaps_of_before h.nodup (flatten_perm w).symm ?_
  intro a b hdep hbefore
  have hsub : [a, b].Sublist ((assignLayers Indep w).map Prod.fst) := by
    rw [map_fst_assignLayers]
    exact hbefore
  obtain ⟨pair, hpair, heq⟩ := sublist_map_iff.mp hsub
  obtain ⟨⟨a', i⟩, ⟨b', j⟩, rfl⟩ : ∃ p q, pair = [p, q] := by
    refine length_eq_two.mp ?_
    rw [← length_map Prod.fst, ← heq]
    rfl
  obtain ⟨rfl, rfl⟩ : a = a' ∧ b = b' := by simpa using heq
  have hij : i < j :=
    (pairwise_pair.mp ((pairwise_assignLayers w).sublist hpair)) hdep
  have ha : (a, i) ∈ assignLayers Indep w := hpair.subset (by simp)
  have hb : (b, j) ∈ assignLayers Indep w := hpair.subset (by simp)
  unfold FoataTrace.flatten
  rw [layers_canonicalize]
  exact before_flatten (mem_sortedLayer.mpr ha) (mem_sortedLayer.mpr hb) hij (lt_depth hb)

/-! ## Depth -/

theorem exists_longest_chain (w : List TraceEvent) :
    ∃ chain : List TraceEvent, chain.Sublist w ∧ chain.IsChain (fun a b => ¬ Indep a b) ∧
      chain.length = (canonicalize w).depth := by
  rw [depth_canonicalize]
  split
  · exact ⟨[], nil_sublist w, .nil, rfl⟩
  · rename_i hw
    rw [← @length_assignLayers _ Indep, length_eq_zero_iff] at hw
    obtain ⟨⟨a, k⟩, hp, hmax⟩ := exists_maxLayer hw
    obtain ⟨chain, hsub, hchain, hlength⟩ := exists_chain hp
    refine ⟨chain ++ [a], hsub, hchain, ?_⟩
    rw [← hmax, length_append, hlength]
    rfl

theorem chain_length_le_depth {chain : List TraceEvent} (hsub : chain.Sublist w)
    (hchain : chain.IsChain (fun a b => ¬ Indep a b)) :
    chain.length ≤ (canonicalize w).depth := by
  rcases eq_nil_or_concat chain with rfl | ⟨front, a, rfl⟩
  · exact Nat.zero_le _
  · rw [concat_eq_append] at hsub hchain ⊢
    obtain ⟨k, hk, hle⟩ := length_le_of_chain hsub hchain
    rw [length_append]
    exact Nat.lt_of_le_of_lt hle (lt_depth hk)

/-! ## Fingerprints -/

theorem map_sortKey_insertionSort (l : List TraceEvent) :
    (l.insertionSort eventLe).map eventSortKey = (l.map eventSortKey).insertionSort (· ≤ ·) :=
  map_insertionSort _ _ _ _ (fun _ _ _ _ => Iff.rfl)

/-- The keys of a sorted layer do not depend on the order of its events before. -/
theorem map_sortKey_perm {l l' : List TraceEvent} (h : l.Perm l') :
    (l.insertionSort eventLe).map eventSortKey = (l'.insertionSort eventLe).map eventSortKey := by
  rw [map_sortKey_insertionSort, map_sortKey_insertionSort]
  have hperm : ((l.map eventSortKey).insertionSort (· ≤ ·)).Perm
      ((l'.map eventSortKey).insertionSort (· ≤ ·)) :=
    ((perm_insertionSort _ _).trans (h.map eventSortKey)).trans (perm_insertionSort _ _).symm
  exact hperm.eq_of_pairwise' (pairwise_insertionSort _ _) (pairwise_insertionSort _ _)

/-- The positions of a layer give its events. -/
theorem map_get_layerIndices (w : List TraceEvent) (k : Nat) :
    (layerIndices w k).map w.get = layerEvents (assignLayers Indep w) k := by
  have hlength : w.length = (assignLayers Indep w).length := (length_assignLayers w).symm
  have hassigned : assignLayers Indep w =
      (finRange w.length).map (fun i => (assignLayers Indep w).get (i.cast hlength)) :=
    ext_getElem (by simp) (by simp)
  have hfst (i : Fin w.length) : ((assignLayers Indep w).get (i.cast hlength)).1 = w.get i := by
    have hget : ((assignLayers Indep w).map Prod.fst)[i.val]? = w[i.val]? := by
      rw [map_fst_assignLayers]
    rw [getElem?_map, getElem?_eq_getElem (hlength ▸ i.isLt), getElem?_eq_getElem i.isLt] at hget
    exact Option.some.inj hget
  have hsnd (i : Fin w.length) : ((assignLayers Indep w).map Prod.snd)[i.val]? =
      some ((assignLayers Indep w).get (i.cast hlength)).2 := by
    simp [← hlength]
  have hevents : layerEvents (assignLayers Indep w) k = ((finRange w.length).filter
        (fun i => ((assignLayers Indep w).get (i.cast hlength)).2 = k)).map
          (fun i => ((assignLayers Indep w).get (i.cast hlength)).1) := by
    unfold layerEvents
    conv_lhs => rw [hassigned]
    rw [filter_map, map_map]
    rfl
  unfold layerIndices
  simp only [hevents, hsnd, Option.some.injEq]
  exact map_congr_left (fun i _ => (hfst i).symm)

theorem traceFingerprint_eq (w : List TraceEvent) :
    traceFingerprint w = (canonicalize w).fingerprint := by
  by_cases hw : w = []
  · subst hw
    rfl
  unfold traceFingerprint FoataTrace.fingerprint
  rw [if_neg (by simpa using hw), layers_canonicalize, depth_canonicalize,
    if_neg (fun hlength => hw (length_eq_zero_iff.mp hlength)), map_map]
  congr 1
  refine map_congr_left ?_
  intro k _
  have hsort : ((layerIndices w k).insertionSort
      (fun i j => eventLe (w.get i) (w.get j))).map w.get = sortedLayer w k := by
    rw [map_insertionSort _ eventLe _ _ (fun _ _ _ _ => Iff.rfl), map_get_layerIndices]
    rfl
  rw [Function.comp_apply, ← hsort, map_map]
  rfl

theorem traceFingerprint_swaps (h : TraceSwaps w w') :
    traceFingerprint w' = traceFingerprint w := by
  have hassigned := h.perm_assignLayers independent_symm
  rw [traceFingerprint_eq, traceFingerprint_eq]
  unfold FoataTrace.fingerprint
  rw [layers_canonicalize, layers_canonicalize, depth_congr h.perm.length_eq (maxLayer_perm hassigned),
    map_map, map_map]
  congr 1
  refine map_congr_left ?_
  intro k _
  exact (map_sortKey_perm ((hassigned.filter _).map Prod.fst)).symm

/-! ## The theorem -/

/-- **Foata shape.**  For every trace with distinct sequence numbers: each layer of the
canonical form consists of independent events, each event of a layer depends on an event
of the layer below, the flattened form is reached by swaps, the depth is the length of
the longest chain of successively dependent events, and the fingerprint of the trace is
that of its canonical form and of every trace reached by swaps. -/
theorem foata_shape (w : List TraceEvent) (h : DistinctSeq w) :
    (∀ layer ∈ (canonicalize w).layers, layer.Pairwise Indep) ∧
      (∀ k lower upper, (canonicalize w).layers[k]? = some lower →
        (canonicalize w).layers[k + 1]? = some upper → ∀ e ∈ upper, ∃ d ∈ lower, ¬ Indep d e) ∧
      TraceSwaps w (canonicalize w).flatten ∧
      (∃ chain : List TraceEvent, chain.Sublist w ∧ chain.IsChain (fun a b => ¬ Indep a b) ∧
        chain.length = (canonicalize w).depth) ∧
      (∀ chain : List TraceEvent, chain.Sublist w → chain.IsChain (fun a b => ¬ Indep a b) →
        chain.length ≤ (canonicalize w).depth) ∧
      traceFingerprint w = (canonicalize w).fingerprint ∧
      ∀ w', TraceSwaps w w' → traceFingerprint w' = traceFingerprint w := by
  refine ⟨?_, ?_, swaps_flatten h, exists_longest_chain w,
    fun chain hsub hchain => chain_length_le_depth hsub hchain, traceFingerprint_eq w,
    fun w' hw' => traceFingerprint_swaps hw'⟩
  · intro layer hlayer
    obtain ⟨k, hk⟩ := List.mem_iff_getElem?.mp hlayer
    rw [eq_sortedLayer hk]
    exact pairwise_sortedLayer w k
  · intro k lower upper hlower hupper e he
    rw [eq_sortedLayer hupper, mem_sortedLayer] at he
    obtain ⟨d, hd, hdep⟩ := exists_dependent_below he
    rw [eq_sortedLayer hlower]
    exact ⟨d, mem_sortedLayer.mpr hd, hdep⟩

/-- Two tasks are spawned in different regions and the first one completes. -/
theorem foata_shape_two_tasks :
    let spawn₁ := TraceEvent.new 1 0 .spawn (.task ⟨⟨1, 0⟩⟩ ⟨⟨1, 0⟩⟩)
    let spawn₂ := TraceEvent.new 2 0 .spawn (.task ⟨⟨2, 0⟩⟩ ⟨⟨2, 0⟩⟩)
    let complete₁ := TraceEvent.new 3 0 .complete (.task ⟨⟨1, 0⟩⟩ ⟨⟨1, 0⟩⟩)
    (canonicalize [spawn₂, spawn₁, complete₁]).layers = [[spawn₁, spawn₂], [complete₁]] ∧
      TraceSwaps [spawn₂, spawn₁, complete₁]
        (canonicalize [spawn₂, spawn₁, complete₁]).flatten := by
  intro spawn₁ spawn₂ complete₁
  exact ⟨by decide, (foata_shape [spawn₂, spawn₁, complete₁] (by decide)).2.2.1⟩

end Asupersync
