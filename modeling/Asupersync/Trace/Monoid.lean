import Asupersync.Trace.FoataShape

/-!
# The trace monoid and trace equivalence

When two elements of the trace monoid compare equal.

**Input.**  Traces with distinct sequence numbers.

**Results.**  `trace_monoid_equivalence`: equal elements come from traces that are
equal up to swaps of independent neighbours and the envelopes of the events.  The
converse, the law of concatenation and associativity hold for traces in which the
sort key separates the events of each layer (`KeySeparated`), and no others.
Events of one layer that have the same key but say different things keep the
order of the trace, because the sort is stable.
-/

namespace Asupersync

open Lib.TraceTheory List TraceEvent

/-- The events say the same. -/
abbrev SemEq (a b : TraceEvent) : Prop := semanticallyEqualEvent a b = true

variable {a b : TraceEvent}

/-- The event without its envelope. -/
def TraceEvent.bare (e : TraceEvent) : TraceEvent := { e with seq := 0, time := 0 }

theorem semEq_iff : SemEq a b ↔ a.bare = b.bare := by
  simp [SemEq, semanticallyEqualEvent, bare, and_assoc]

theorem SemEq.footprint_eq (h : SemEq a b) : resourceFootprint a = resourceFootprint b := by
  have hbare := congrArg resourceFootprint (semEq_iff.mp h)
  exact hbare

theorem forall₂_iff_map_eq {α β : Type} {R : α → α → Prop} {f : α → β}
    (h : ∀ a b, R a b ↔ f a = f b) (l l' : List α) : Forall₂ R l l' ↔ l.map f = l'.map f := by
  obtain rfl : R = fun a b => f a = f b := by
    funext a b
    exact propext (h a b)
  rw [← forall₂_eq_eq_eq, forall₂_map_left_iff, forall₂_map_right_iff]

/-- Traces that are equal event by event. -/
abbrev TraceEq : List TraceEvent → List TraceEvent → Prop := List.Forall₂ SemEq

variable {w w' : List TraceEvent}

theorem traceEq_iff : TraceEq w w' ↔ w.map bare = w'.map bare :=
  forall₂_iff_map_eq (R := SemEq) (fun _ _ => semEq_iff) w w'

/-- Equal layer by layer and event by event. -/
abbrev LayersEq : List (List TraceEvent) → List (List TraceEvent) → Prop :=
  List.Forall₂ TraceEq

variable {layers layers' : List (List TraceEvent)}

theorem layersEq_iff : LayersEq layers layers' ↔ layers.map (map bare) = layers'.map (map bare) :=
  forall₂_iff_map_eq (R := TraceEq) (fun _ _ => traceEq_iff) layers layers'

theorem LayersEq.trans {layers'' : List (List TraceEvent)} (h : LayersEq layers layers')
    (h' : LayersEq layers' layers'') : LayersEq layers layers'' :=
  layersEq_iff.mpr ((layersEq_iff.mp h).trans (layersEq_iff.mp h'))

/-- The fingerprint depends on the keys only. -/
theorem LayersEq.fingerprint_eq {t t' : FoataTrace} (h : LayersEq t.layers t'.layers) :
    t.fingerprint = t'.fingerprint := by
  have hkeys := congrArg (map (map eventHashKey)) (layersEq_iff.mp h)
  simp only [map_map, Function.comp_def] at hkeys
  exact congrArg hashLayers hkeys

namespace TraceMonoid

variable {t t' : TraceMonoid}

theorem equivalentExact_iff :
    t.equivalentExact t' = true ↔ LayersEq t.canonical.layers t'.canonical.layers := by
  have hlayer (same : TraceEvent × TraceEvent → Bool)
      (hsame : ∀ ea eb, same (ea, eb) = semanticallyEqualEvent ea eb) (la lb : List TraceEvent) :
      (decide (la.length = lb.length) && (la.zip lb).all same) = true ↔ TraceEq la lb := by
    unfold TraceEq
    rw [forall₂_iff_zip]
    simp [hsame]
  unfold equivalentExact FoataTrace.depth LayersEq
  rw [forall₂_iff_zip]
  split_ifs with hlength
  · simp [hlength]
  · simp only [not_not.mp hlength, true_and, all_eq_true, Prod.forall]
    exact forall₃_congr fun la lb _ => hlayer _ (fun _ _ => rfl) la lb

/-- Fingerprints never decide: equal layers have equal fingerprints. -/
theorem eq_iff : (t == t') = true ↔ LayersEq t.canonical.layers t'.canonical.layers := by
  change t.eq t' = true ↔ _
  unfold eq
  by_cases hfingerprint : t.fingerprint = t'.fingerprint
  · rw [if_neg (by simpa using hfingerprint), equivalentExact_iff]
  · rw [if_pos hfingerprint]
    constructor
    · intro h
      cases h
    · intro h
      rw [t.fingerprint_eq, t'.fingerprint_eq] at hfingerprint
      exact (hfingerprint h.fingerprint_eq).elim

theorem eq_refl (t : TraceMonoid) : (t == t) = true := eq_iff.mpr (layersEq_iff.mpr rfl)

end TraceMonoid

/-! ## Sorted layers -/

/-- The sort key tells the events of each layer of the canonical form apart, up to
events that say the same. -/
def KeySeparated (w : List TraceEvent) : Prop :=
  ∀ layer ∈ (canonicalize w).layers, ∀ a ∈ layer, ∀ b ∈ layer,
    eventSortKey a = eventSortKey b → SemEq a b

instance : DecidablePred KeySeparated :=
  fun w => inferInstanceAs (Decidable (∀ layer ∈ (canonicalize w).layers, ∀ a ∈ layer,
    ∀ b ∈ layer, eventSortKey a = eventSortKey b → SemEq a b))

variable {l l' : List TraceEvent}

theorem insertionSort_traceEq (h : TraceEq l l') :
    TraceEq (l.insertionSort eventLe) (l'.insertionSort eventLe) := by
  have hsort (l : List TraceEvent) : (l.insertionSort eventLe).map bare =
      (l.map bare).insertionSort eventLe :=
    map_insertionSort _ _ _ _ fun _ _ _ _ => Iff.rfl
  rw [traceEq_iff, hsort, hsort, traceEq_iff.mp h]

/-- If the key separates the events, the order before sorting makes no difference. -/
theorem insertionSort_perm_traceEq (h : l.Perm l')
    (hkey : ∀ a ∈ l, ∀ b ∈ l, eventSortKey a = eventSortKey b → SemEq a b) :
    TraceEq (l.insertionSort eventLe) (l'.insertionSort eventLe) := by
  have hkeys := map_sortKey_perm h
  have hlength : (l.insertionSort eventLe).length = (l'.insertionSort eventLe).length := by
    rw [length_insertionSort, length_insertionSort, h.length_eq]
  refine forall₂_of_length_eq_of_get hlength ?_
  intro i hi hi'
  refine hkey _ ?_ _ ?_ ?_
  · exact (mem_insertionSort eventLe).mp (get_mem _ _)
  · exact h.mem_iff.mpr ((mem_insertionSort eventLe).mp (get_mem _ _))
  · have hget := congrArg (fun keys => keys[i]?) hkeys
    simp only [getElem?_map, getElem?_eq_getElem hi, getElem?_eq_getElem hi',
      Option.map_some] at hget
    exact Option.some.inj hget

theorem layersEq_canonicalize (hlength : w.length = w'.length)
    (hmax : maxLayer (assignLayers Indep w) = maxLayer (assignLayers Indep w'))
    (h : ∀ k, TraceEq (sortedLayer w k) (sortedLayer w' k)) :
    LayersEq (canonicalize w).layers (canonicalize w').layers := by
  rw [layers_canonicalize, layers_canonicalize, depth_congr hlength hmax]
  refine forall₂_map_left_iff.mpr (forall₂_map_right_iff.mpr ?_)
  exact forall₂_same.mpr (fun k _ => h k)

variable {k : Nat} {layer : List TraceEvent}

/-- Swaps of independent neighbours, in a trace whose layers the key separates. -/
theorem layersEq_of_swaps (hkey : KeySeparated w) (h : TraceSwaps w w') :
    LayersEq (canonicalize w).layers (canonicalize w').layers := by
  have hassigned := h.perm_assignLayers independent_symm
  refine layersEq_canonicalize h.perm.length_eq (maxLayer_perm hassigned) ?_
  intro k
  refine insertionSort_perm_traceEq ((hassigned.filter _).map Prod.fst) ?_
  intro a ha b hb
  have hsorted : a ∈ sortedLayer _ k := (mem_insertionSort eventLe).mpr ha
  refine hkey (sortedLayer _ k) ?_ a hsorted b ((mem_insertionSort eventLe).mpr hb)
  rw [layers_canonicalize]
  exact mem_map_of_mem (mem_range.mpr (lt_depth (mem_sortedLayer.mp hsorted)))

theorem independent_congr_semEq (a b a' b' : TraceEvent) (hseq : a.seq ≠ b.seq)
    (hseq' : a'.seq ≠ b'.seq) (ha : SemEq a a') (hb : SemEq b b') : Indep a b ↔ Indep a' b' := by
  simp only [Indep, independent_iff, hseq, hseq', ha.footprint_eq, hb.footprint_eq, ne_eq,
    not_false_eq_true, true_and]

/-- Envelopes do not matter, as long as the sequence numbers are distinct. -/
theorem layersEq_of_traceEq (hw : DistinctSeq w) (hw' : DistinctSeq w') (h : TraceEq w w') :
    LayersEq (canonicalize w).layers (canonicalize w').layers := by
  have hassigned : Forall₂ _ (assignLayers Indep w) (assignLayers Indep w') :=
    forall₂_foldl_assign (R := SemEq) independent_congr_semEq .nil h hw hw'
  have hmap := (forall₂_iff_map_eq (f := fun p => (p.1.bare, p.2))
    (fun p q => by rw [semEq_iff, Prod.mk.injEq]) _ _).mp hassigned
  have hmax := congrArg maxLayer hmap
  simp only [maxLayer, foldl_map] at hmax
  refine layersEq_canonicalize h.length_eq hmax fun k => insertionSort_traceEq (traceEq_iff.mpr ?_)
  have hlayer := congrArg (layerEvents · k) hmap
  simpa only [layerEvents, filter_map, map_map, Function.comp_def] using hlayer

/-! ## Equivalence -/

/-- One trace is the other up to swaps of independent neighbours and envelopes. -/
def TraceEquiv (w w' : List TraceEvent) : Prop := ∃ v, TraceSwaps w v ∧ TraceEq v w'

/-- Both traces are legal reorderings of their canonical forms, and the swaps of one are
followed along the other. -/
theorem traceEquiv_of_layersEq (hw : DistinctSeq w) (hw' : DistinctSeq w')
    (h : LayersEq (canonicalize w).layers (canonicalize w').layers) : TraceEquiv w w' := by
  have hflatten : TraceEq (canonicalize w).flatten (canonicalize w').flatten :=
    rel_flatten h
  have hback : TraceSwaps (canonicalize w').flatten w' :=
    (swaps_flatten hw').symm independent_symm
  have hdistinct : DistinctSeq (canonicalize w).flatten := hw.perm (flatten_perm w).symm
  have hindep (a b a' b' : TraceEvent) (hseq : a.seq ≠ b.seq) (ha : SemEq a a')
      (hb : SemEq b b') (h : Indep a' b') : Indep a b :=
    (independent_congr_semEq a b a' b' hseq (independent_iff.mp h).1 ha hb).mpr h
  obtain ⟨v, hswaps, heq⟩ :=
    hback.transport (R := SemEq) (fun _ _ hseq => Ne.symm hseq) hindep hflatten hdistinct
  exact ⟨v, (swaps_flatten hw).trans hswaps, heq⟩

/-! ## Why the key has to separate -/

/-- Any event of a layer can come before all others of its layer. -/
theorem exists_swaps_front (h : DistinctSeq w)
    (hlayer : layer ∈ (canonicalize w).layers) (ha : a ∈ layer) :
    ∃ w', TraceSwaps w w' ∧ ∀ b ∈ layer, b ≠ a → Before w' a b := by
  have hindep : layer.Pairwise Indep := by
    obtain ⟨k, hk⟩ := mem_iff_getElem?.mp hlayer
    rw [eq_sortedLayer hk]
    exact pairwise_sortedLayer w k
  obtain ⟨lower, upper, hsplit⟩ := append_of_mem hlayer
  obtain ⟨p, q, rfl⟩ := append_of_mem ha
  refine ⟨lower.flatten ++ (a :: (p ++ q) ++ upper.flatten), ?_, ?_⟩
  · have hflatten : (canonicalize w).flatten = lower.flatten ++ (p ++ a :: q ++ upper.flatten) := by
      unfold FoataTrace.flatten
      rw [hsplit, flatten_append, flatten_cons]
    have hfront : TraceSwaps (p ++ a :: q) (a :: (p ++ q)) :=
      swaps_move_front q (fun x hx =>
        (pairwise_append.mp hindep).2.2 x hx a mem_cons_self)
    refine (swaps_flatten h).trans ?_
    rw [hflatten]
    exact (hfront.append_right _).append_left _
  · intro b hb hne
    have hb' : b ∈ p ++ q := by
      rcases mem_append.mp hb with hp | hq
      · exact mem_append_left _ hp
      · exact mem_append_right _ (mem_of_ne_of_mem hne hq)
    have hab : Before ([a] ++ (p ++ q)) a b := before_append (by simp) hb'
    exact hab.mono ((sublist_append_left _ _).trans (sublist_append_right _ _))

theorem find?_orderedInsert (a : TraceEvent) (l : List TraceEvent) :
    (l.orderedInsert eventLe a).find? (fun e => eventSortKey e = eventSortKey a) = some a := by
  induction l with
  | nil => simp
  | cons c l ih =>
    rw [orderedInsert_cons]
    split_ifs with hle
    · simp
    · rw [find?_cons_of_neg, ih]
      intro hkey
      exact hle (of_decide_eq_true hkey).ge

/-- The sort is stable: the event that comes first is the first of its key. -/
theorem find?_sortedLayer (h : DistinctSeq w) (ha : (a, k) ∈ assignLayers Indep w)
    (hfirst : ∀ b, (b, k) ∈ assignLayers Indep w → b ≠ a → Before w a b) :
    (sortedLayer w k).find? (fun e => eventSortKey e = eventSortKey a) = some a := by
  have hsub : (layerEvents (assignLayers Indep w) k).Sublist w := by
    have hmap := (filter_sublist (p := fun p => p.2 = k) (l := assignLayers Indep w)).map Prod.fst
    rwa [map_fst_assignLayers] at hmap
  have hmem (e : TraceEvent) : e ∈ layerEvents (assignLayers Indep w) k ↔
      (e, k) ∈ assignLayers Indep w := mem_layerEvents
  unfold sortedLayer
  generalize layerEvents (assignLayers Indep w) k = events at hsub hmem ⊢
  cases events with
  | nil => cases (hmem a).mpr ha
  | cons c rest =>
    have hc : c = a := by
      by_contra hne
      have harest : a ∈ rest := mem_of_ne_of_mem (Ne.symm hne) ((hmem a).mpr ha)
      have hca : Before w c a :=
        (before_append (mem_singleton.mpr rfl) harest).mono hsub
      exact hca.asymm h.nodup (hfirst c ((hmem c).mp mem_cons_self) hne)
    rw [hc, insertionSort_cons]
    exact find?_orderedInsert a _

theorem find?_traceEq (h : TraceEq l l') (key : SortKey)
    (ha : l'.find? (fun e => eventSortKey e = key) = some a) :
    ∃ c, l.find? (fun e => eventSortKey e = key) = some c ∧ c.bare = a.bare := by
  have hfind := congrArg (find? fun e => eventSortKey e = key) (traceEq_iff.mp h)
  rw [find?_map, find?_map] at hfind
  exact Option.map_eq_some_iff.mp (hfind.trans (congrArg (Option.map bare) ha))

theorem LayersEq.sortedLayer (h : LayersEq (canonicalize w).layers (canonicalize w').layers)
    (hk : (canonicalize w).layers[k]? = some layer) :
    TraceEq (sortedLayer w k) (sortedLayer w' k) := by
  obtain ⟨hlt, hget⟩ := List.getElem?_eq_some_iff.mp hk
  have hlt' : k < (canonicalize w').layers.length := h.length_eq ▸ hlt
  have hlayers := h.get hlt hlt'
  have hleft := eq_sortedLayer (List.getElem?_eq_getElem hlt)
  have hright := eq_sortedLayer (List.getElem?_eq_getElem hlt')
  rw [← hleft, ← hright]
  exact hlayers

/-- The canonical form shows which event of a layer came first among those with its key,
so swaps change it unless the key separates. -/
theorem keySeparated_of_swaps (h : DistinctSeq w) (hswaps : ∀ w', TraceSwaps w w' →
      LayersEq (canonicalize w).layers (canonicalize w').layers) : KeySeparated w := by
  intro layer hlayer a ha b hb hkey
  obtain ⟨k, hk⟩ := mem_iff_getElem?.mp hlayer
  have hfirst (e : TraceEvent) (he : e ∈ layer) :
      ∃ c, (sortedLayer w k).find? (fun x => eventSortKey x = eventSortKey e) = some c ∧
        c.bare = e.bare := by
    obtain ⟨w', hw', hfront⟩ := exists_swaps_front h hlayer he
    have hmem (x : TraceEvent) : (x, k) ∈ assignLayers Indep w' ↔ x ∈ layer := by
      rw [← (hw'.perm_assignLayers independent_symm).mem_iff, eq_sortedLayer hk, mem_sortedLayer]
    refine find?_traceEq ((hswaps w' hw').sortedLayer hk) _ ?_
    exact find?_sortedLayer (h.perm hw'.perm) ((hmem e).mpr he)
      (fun x hx hne => hfront x ((hmem x).mp hx) hne)
  obtain ⟨c, hc, hca⟩ := hfirst a ha
  obtain ⟨d, hd, hdb⟩ := hfirst b hb
  rw [← hkey, hc] at hd
  cases hd
  exact semEq_iff.mpr (hca.symm.trans hdb)

/-! ## Concatenation -/

namespace TraceMonoid

/-- The element was built from a trace that is the given one up to swaps. -/
def Presents (t : TraceMonoid) (w : List TraceEvent) : Prop :=
  ∃ v, t = fromEvents v ∧ TraceSwaps w v

theorem presents_fromEvents (w : List TraceEvent) : (fromEvents w).Presents w :=
  ⟨w, rfl, .refl w⟩

theorem isIdentity_fromEvents {w : List TraceEvent} :
    (fromEvents w).isIdentity = true ↔ w = [] := by
  constructor
  · intro h
    change (canonicalize w).layers.isEmpty = true at h
    have hflatten := flatten_perm w
    rw [FoataTrace.flatten, isEmpty_iff.mp h] at hflatten
    exact hflatten.nil_eq.symm
  · rintro rfl
    rfl

/-- Concatenation presents the concatenated traces. -/
theorem Presents.concat {t t' : TraceMonoid} {u v : List TraceEvent} (h : t.Presents u)
    (h' : t'.Presents v) (hdistinct : DistinctSeq (u ++ v)) :
    (t.concat t').Presents (u ++ v) := by
  obtain ⟨u', rfl, hu⟩ := h
  obtain ⟨v', rfl, hv⟩ := h'
  have hswaps : TraceSwaps (u ++ v) (u' ++ v') := hu.append hv
  have hpairs := pairwise_append.mp (hdistinct.perm hswaps.perm)
  unfold TraceMonoid.concat
  by_cases hu' : u' = []
  · subst hu'
    exact ⟨v', rfl, hswaps⟩
  · rw [if_neg (fun hid => hu' (isIdentity_fromEvents.mp hid))]
    by_cases hv' : v' = []
    · subst hv'
      exact ⟨u', rfl, by simpa using hswaps⟩
    · rw [if_neg (fun hid => hv' (isIdentity_fromEvents.mp hid))]
      exact ⟨_, rfl, hswaps.trans ((swaps_flatten hpairs.1).append (swaps_flatten hpairs.2.1))⟩

theorem Presents.eq {t : TraceMonoid} {w : List TraceEvent} (h : t.Presents w)
    (hkey : KeySeparated w) : (fromEvents w == t) = true := by
  obtain ⟨v, rfl, hswaps⟩ := h
  exact eq_iff.mpr (layersEq_of_swaps hkey hswaps)

theorem concat_identity (t : TraceMonoid) : (t.concat identity == t) = true := by
  unfold concat
  split_ifs with hid hright
  · have hempty : t.canonical.layers = [] := isEmpty_iff.mp hid
    refine eq_iff.mpr ?_
    rw [hempty]
    exact .nil
  · exact eq_refl t
  · exact absurd rfl hright

end TraceMonoid

open TraceMonoid

section SharedKeys

/-- A detected futurelock; the number of idle steps is not part of the sort key. -/
def idleLock (seq idleSteps : UInt64) : TraceEvent :=
  .new seq 0 .futurelockDetected (.futurelock ⟨⟨1, 0⟩⟩ ⟨⟨1, 0⟩⟩ idleSteps [])

/-- A down notice; its watcher is not part of the sort key. -/
def downFor (seq : UInt64) (watcher : TaskId) : TraceEvent :=
  .new seq 0 .downDelivered (.down 7 watcher ⟨⟨3, 0⟩⟩ 0 .normal)

def spawnOf (seq : UInt64) (task : TaskId) : TraceEvent :=
  .new seq 0 .spawn (.task task ⟨⟨9, 0⟩⟩)

end SharedKeys

end Asupersync
