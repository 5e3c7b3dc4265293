import Asupersync.Lib.TransitionSystem
import Asupersync.Plan.EGraphSpec
import Mathlib.Data.Multiset.MapFold

/-!
# The e-graph computes congruence closure

A log records the nodes that were added, with the ids the graph returned, and the
pairs that were merged.  The congruence of a log is the least equivalence on ids
that contains the merged pairs and is closed under congruence of the added nodes.

**Results.**  `congruence_closure`: after every sequence of operations on ids the
graph has returned, two ids have the same representative exactly if they are
congruent, representatives are the smallest ids of their classes, and the
hash-cons table maps canonical nodes to the classes that hold them.
`representatives_from_log`: the order of the operations does not matter.

The proof carries two invariants through the rebuild loop: the graph claims only
what follows from the log (`Sound`), and every added node is found in the class of
its id (`Complete`).  When a pass finds nothing to merge, the table decides
congruence (`Clean`).
-/

namespace Asupersync

open Lib.UnionFind Multiset List

namespace ENode

/-- Nodes with congruent children; the order of the children of a join or a race does
not matter. -/
def Congruent (Q : EClassId → EClassId → Prop) : ENode → ENode → Prop
  | .leaf label, .leaf label' => label = label'
  | .join children, .join children' =>
    Multiset.Rel Q (children : Multiset EClassId) (children' : Multiset EClassId)
  | .race children, .race children' =>
    Multiset.Rel Q (children : Multiset EClassId) (children' : Multiset EClassId)
  | .timeout child duration, .timeout child' duration' => Q child child' ∧ duration = duration'
  | _, _ => False

variable {Q : EClassId → EClassId → Prop}

variable {n m : ENode} {f : EClassId → EClassId}

theorem Congruent.mono {Q' : EClassId → EClassId → Prop} (hQ : ∀ a b, Q a b → Q' a b)
    (h : n.Congruent Q m) : n.Congruent Q' m := by
  cases n <;> cases m <;> simp only [Congruent] at h ⊢
  · exact h
  · exact h.mono (fun a _ b _ => hQ a b)
  · exact h.mono (fun a _ b _ => hQ a b)
  · exact ⟨hQ _ _ h.1, h.2⟩

theorem Congruent.symm (hQ : Equivalence Q) (h : n.Congruent Q m) : m.Congruent Q n := by
  have hrel {s t : Multiset EClassId} (h : Rel Q s t) : Rel Q t s :=
    (rel_flip.mpr h).mono (fun _ _ _ _ hab => hQ.symm hab)
  cases n <;> cases m <;> simp only [Congruent] at h ⊢
  · exact h.symm
  · exact hrel h
  · exact hrel h
  · exact ⟨hQ.symm h.1, h.2.symm⟩

theorem Congruent.trans (hQ : Equivalence Q) {k : ENode} (h : n.Congruent Q m)
    (h' : m.Congruent Q k) : n.Congruent Q k := by
  have : IsTrans EClassId Q := ⟨fun _ _ _ => hQ.trans⟩
  cases n <;> cases m <;> simp only [Congruent] at h <;> cases k <;>
    simp only [Congruent] at h' ⊢
  · exact h.trans h'
  · exact Rel.trans Q h h'
  · exact Rel.trans Q h h'
  · exact ⟨hQ.trans h.1 h'.1, h.2.trans h'.2⟩

/-- A node is congruent to its canonical form. -/
theorem congruent_canon (hf : ∀ c, Q c (f c)) (n : ENode) : n.Congruent Q (n.canon f) := by
  have hrel (cs : List EClassId) : Rel Q (cs : Multiset EClassId)
      (((cs.map f).insertionSort (· ≤ ·) : List EClassId) : Multiset EClassId) := by
    rw [coe_eq_coe.mpr (perm_insertionSort _ (cs.map f)), ← map_coe, rel_map_right]
    exact rel_refl_of_refl_on (fun c _ => hf c)
  cases n with
  | leaf label => rfl
  | join cs | race cs => exact hrel cs
  | timeout c d => exact ⟨hf c, rfl⟩

/-- With the same representatives, congruent nodes have the same canonical form. -/
theorem canon_eq_of_congruent (h : n.Congruent (fun a b => f a = f b) m) :
    n.canon f = m.canon f := by
  have hsort {cs ds : List EClassId}
      (h : Rel (fun a b => f a = f b) (cs : Multiset EClassId) (ds : Multiset EClassId)) :
      (cs.map f).insertionSort (· ≤ ·) = (ds.map f).insertionSort (· ≤ ·) := by
    refine insertionSort_congr ?_
    rw [← coe_eq_coe, ← map_coe, ← map_coe, ← rel_eq, Multiset.rel_map]
    exact h
  cases n <;> cases m <;> simp only [Congruent] at h <;> simp only [canon]
  · rw [h]
  · rw [hsort h]
  · rw [hsort h]
  · rw [h.1, h.2]

end ENode

/-! ## Logs -/

/-- The added nodes with their ids, and the merged pairs. -/
structure Log where
  adds : List (ENode × EClassId)
  merges : List (EClassId × EClassId)
deriving DecidableEq, Repr

namespace Log

def empty : Log := ⟨[], []⟩

def added (log : Log) (n : ENode) (id : EClassId) : Log := { log with adds := (n, id) :: log.adds }

def merged (log : Log) (a b : EClassId) : Log := { log with merges := (a, b) :: log.merges }

/-- The graph has returned the id for an added node. -/
def Returned (log : Log) (id : EClassId) : Prop := ∃ n, (n, id) ∈ log.adds

/-- An equivalence that contains the merged pairs and is closed under congruence. -/
structure Closed (log : Log) (Q : EClassId → EClassId → Prop) : Prop where
  equivalence : Equivalence Q
  merged : ∀ p ∈ log.merges, Q p.1 p.2
  congruent : ∀ p ∈ log.adds, ∀ q ∈ log.adds, p.1.Congruent Q q.1 → Q p.2 q.2

/-- The least such equivalence. -/
def Congruence (log : Log) (a b : EClassId) : Prop := ∀ Q, log.Closed Q → Q a b

theorem closed_congruence (log : Log) : log.Closed log.Congruence where
  equivalence :=
    { refl := fun a _ hQ => hQ.equivalence.refl a
      symm := fun h Q hQ => hQ.equivalence.symm (h Q hQ)
      trans := fun h h' Q hQ => hQ.equivalence.trans (h Q hQ) (h' Q hQ) }
  merged := fun p hp _ hQ => hQ.merged p hp
  congruent := fun p hp q hq h Q hQ =>
    hQ.congruent p hp q hq (h.mono (fun _ _ hab => hab Q hQ))

end Log

namespace EGraph

/-! ## Invariants -/

/-- Representatives and nodes follow from the log. -/
structure Sound (log : Log) (g : EGraph) : Prop where
  root : ∀ Q, log.Closed Q → ∀ id, Q id (g.root id)
  node : ∀ r n, g.Holds r n →
    ∃ p ∈ log.adds, ∀ Q, log.Closed Q → p.1.Congruent Q n ∧ Q p.2 r

/-- Every added node is in the class of its id, up to canonical form, and merged ids have
one representative. -/
structure Complete (log : Log) (g : EGraph) : Prop where
  issued : ∀ p ∈ log.adds, p.2 < g.classes.length
  node : ∀ p ∈ log.adds, ∃ n, g.Holds (g.root p.2) n ∧ n.canon g.root = p.1.canon g.root
  merged : ∀ p ∈ log.merges, g.root p.1 = g.root p.2

/-- What the rebuild loop keeps. -/
structure Inv (log : Log) (g : EGraph) : Prop where
  wellFormed : g.WellFormed
  sound : Sound log g
  complete : Complete log g

/-- The table decides congruence of nodes. -/
structure Clean (g : EGraph) : Prop where
  entry : ∀ p ∈ g.hashcons, g.root p.2 = p.2 ∧ g.Holds p.2 p.1 ∧ p.1.canon g.root = p.1
  lookup : ∀ r n, r < g.classes.length → g.root r = r → g.Holds r n →
    n.canon g.root = n ∧ g.hashcons.lookup n = some r

section Preservation

variable {log : Log} {g g' : EGraph}

variable {r : EClassId} {n : ENode} {winner loser : EClassId}

theorem Compressed.keeps (h : Compressed g g') :
    (Sound log g → Sound log g') ∧ (Complete log g → Complete log g') ∧ (Clean g → Clean g') := by
  have hroot := h.root_eq
  obtain ⟨⟩ := g'
  obtain ⟨-, rfl, rfl, rfl⟩ := h
  refine ⟨fun hg => ⟨?_, hg.node⟩, fun hg => ⟨hg.issued, ?_, ?_⟩, fun hg => ⟨?_, ?_⟩⟩ <;> rw [hroot]
  · exact hg.root
  · exact hg.node
  · exact hg.merged
  · exact hg.entry
  · exact hg.lookup

/-- The node of a class follows from the log in its canonical form, too. -/
theorem Sound.canon (h : Sound log g) (hn : g.Holds r n) :
    ∃ p ∈ log.adds, ∀ Q, log.Closed Q → p.1.Congruent Q (n.canon g.root) ∧ Q p.2 r := by
  obtain ⟨p, hp, hfollows⟩ := h.node r n hn
  refine ⟨p, hp, ?_⟩
  intro Q hQ
  obtain ⟨hnode, hid⟩ := hfollows Q hQ
  exact ⟨hnode.trans hQ.equivalence (ENode.congruent_canon (h.root Q hQ) n), hid⟩

/-- Classes that hold nodes with one canonical form are congruent. -/
theorem Sound.congruence_of_canon_eq (h : Sound log g) {s : EClassId} {m : ENode} (hn : g.Holds r n)
    (hm : g.Holds s m) (heq : n.canon g.root = m.canon g.root) :
    log.Congruence r s := by
  obtain ⟨p, hp, hfollows⟩ := h.canon hn
  obtain ⟨q, hq, hfollows'⟩ := h.canon hm
  intro Q hQ
  obtain ⟨hpn, hpr⟩ := hfollows Q hQ
  obtain ⟨hqm, hqs⟩ := hfollows' Q hQ
  have hpq : Q p.2 q.2 := by
    refine hQ.congruent p hp q hq (hpn.trans hQ.equivalence ?_)
    rw [heq]
    exact hqm.symm hQ.equivalence
  exact hQ.equivalence.trans (hQ.equivalence.symm hpr) (hQ.equivalence.trans hpq hqs)

/-- A pass of the rebuild loop. -/
theorem ScannedBelow.inv {merges : List (EClassId × EClassId)}
    (h : ScannedBelow g g.classes.length merges g') (hg : Inv log g) : Inv log g' where
  wellFormed := h.wellFormed hg.wellFormed (le_refl _)
  sound :=
    { root := by
        rw [h.refines.root_eq]
        exact hg.sound.root
      node := by
        intro r n' hn'
        obtain ⟨n, hn, rfl | rfl⟩ := h.holds_old hg.wellFormed hn'
        · exact hg.sound.node r n' hn
        · exact hg.sound.canon hn }
  complete :=
    { issued := by
        rw [h.refines.classes_length]
        exact hg.complete.issued
      node := by
        intro p hp
        obtain ⟨n, hn, hcanon⟩ := hg.complete.node p hp
        rw [h.refines.root_eq]
        refine ⟨n.canon g.root, h.holds_canon ?_ (root_root hg.wellFormed p.2) hn, ?_⟩
        · exact root_lt hg.wellFormed (hg.complete.issued p hp)
        · rw [canon_idem hg.wellFormed, hcanon]
      merged := by
        rw [h.refines.root_eq]
        exact hg.complete.merged }

/-- Linking congruent representatives claims nothing new. -/
theorem Linked.sound (h : Linked g winner loser g')
    (hg : Sound log g) (hcong : log.Congruence winner loser) : Sound log g' where
  root := by
    intro Q hQ id
    rw [h.root_eq]
    split
    · rename_i hloser
      have hid := hg.root Q hQ id
      rw [hloser] at hid
      exact hQ.equivalence.trans hid (hQ.equivalence.symm (hcong Q hQ))
    · exact hg.root Q hQ id
  node := by
    rintro r n ⟨ni, hni, hslot⟩
    rw [h.nodeArena_eq] at hslot
    rcases h.mem_nodeIndices hni with hold | ⟨rfl, hold⟩
    · exact hg.node r n ⟨ni, hold, hslot⟩
    · obtain ⟨p, hp, hfollows⟩ := hg.node loser n ⟨ni, hold, hslot⟩
      refine ⟨p, hp, ?_⟩
      intro Q hQ
      exact ⟨(hfollows Q hQ).1, hQ.equivalence.trans (hfollows Q hQ).2
        (hQ.equivalence.symm (hcong Q hQ))⟩

/-- Linking moves the nodes along with their class. -/
theorem Linked.complete (h : Linked g winner loser g')
    (hwf : g.WellFormed) (hg : Complete log g) : Complete log g' := by
  have hcoarse (c : EClassId) : g'.root (g.root c) = g'.root c := by
    rw [h.root_eq, h.root_eq, root_root hwf]
  refine ⟨?_, ?_, ?_⟩
  · rw [h.classes_length]
    exact hg.issued
  · intro p hp
    obtain ⟨n, ⟨ni, hni, hslot⟩, hcanon⟩ := hg.node p hp
    refine ⟨n, ⟨ni, ?_, ?_⟩, ?_⟩
    · rw [h.root_eq, h.nodeIndices]
      by_cases hloser : g.root p.2 = loser
      · rw [if_pos hloser, if_pos rfl]
        exact mem_append_right _ (hloser ▸ hni)
      · split_ifs with hwinner
        · exact mem_append_left _ (hwinner ▸ hni)
        · exact hni
    · rw [h.nodeArena_eq]
      exact hslot
    · rw [← ENode.canon_canon hcoarse n, hcanon, ENode.canon_canon hcoarse]
  · intro p hp
    rw [h.root_eq, h.root_eq, hg.merged p hp]

end Preservation

/-! ## The table of a pass -/

section Table

variable {f : EClassId → EClassId}

variable {t : List (ENode × EClassId) × List (EClassId × EClassId)} {r : EClassId} {c : ENode}
  {vs : List (EClassId × ENode)}

theorem lookup_visit {v : EClassId × ENode} {id : EClassId} (h : t.1.lookup c = some id) :
    (visit f t v).1.lookup c = some id := by
  unfold visit
  split
  · split <;> exact h
  · rename_i hnone
    rw [lookup_cons]
    split
    · rename_i heq
      rw [beq_iff_eq] at heq
      rw [← heq, h] at hnone
      cases hnone
    · exact h

/-- Every visited node is in the table; if its entry is in another class, something is to
be merged. -/
theorem lookup_foldl_visit (h : (r, c) ∈ vs) :
    ∃ id, (vs.foldl (visit f) ([], [])).1.lookup c = some id ∧
      (f id = f r ∨ (vs.foldl (visit f) ([], [])).2 ≠ []) := by
  induction vs using reverseRecOn with
  | nil => cases h
  | append_singleton vs v ih =>
    rw [foldl_append]
    simp only [List.foldl_cons, List.foldl_nil]
    rcases mem_append.mp h with hold | hlast
    · obtain ⟨id, hlookup, hid⟩ := ih hold
      refine ⟨id, lookup_visit hlookup, ?_⟩
      rcases hid with hid | hmerges
      · exact .inl hid
      · right
        unfold visit
        split
        · split
          · simp
          · exact hmerges
        · exact hmerges
    · obtain rfl := List.mem_singleton.mp hlast
      cases hlookup : (vs.foldl (visit f) ([], [])).1.lookup c with
      | none =>
        refine ⟨r, ?_, .inl rfl⟩
        simp only [visit, hlookup, lookup_cons_self]
      | some id =>
        refine ⟨id, lookup_visit hlookup, ?_⟩
        by_cases hid : f id = f r
        · exact .inl hid
        · right
          simp [visit, hlookup, hid]

/-- A pair to merge comes from two classes with a common node. -/
theorem mem_merges_foldl_visit {pair : EClassId × EClassId}
    (h : pair ∈ (vs.foldl (visit f) ([], [])).2) :
    ∃ c r s, (r, c) ∈ vs ∧ (s, c) ∈ vs ∧ f s ≠ f r ∧ pair = orderedPair (f s) (f r) := by
  induction vs using reverseRecOn with
  | nil => cases h
  | append_singleton vs v ih =>
    rw [foldl_append] at h
    simp only [List.foldl_cons, List.foldl_nil] at h
    have hold (hpair : pair ∈ (vs.foldl (visit f) ([], [])).2) :
        ∃ c r s, (r, c) ∈ vs ++ [v] ∧ (s, c) ∈ vs ++ [v] ∧ f s ≠ f r ∧
          pair = orderedPair (f s) (f r) := by
      obtain ⟨c, r, s, hr, hs, hrest⟩ := ih hpair
      exact ⟨c, r, s, mem_append_left _ hr, mem_append_left _ hs, hrest⟩
    unfold visit at h
    split at h
    · rename_i existing hlookup
      split at h
      · rename_i hne
        rcases mem_append.mp h with hpair | hnew
        · exact hold hpair
        · have hentry : (existing, v.2) ∈ vs := by
            rcases mem_foldl_visit (mem_of_lookup hlookup) with hnil | hmem
            · cases hnil
            · exact hmem
          exact ⟨v.2, v.1, existing, by simp, mem_append_left _ hentry, hne,
            List.mem_singleton.mp hnew⟩
      · exact hold h
    · exact hold h

end Table

/-! ## The rebuild loop -/

section Rebuild

variable {log : Log} {g g' : EGraph} {merges : List (EClassId × EClassId)} {a b : EClassId}

/-- A pass that finds nothing to merge leaves a table that decides congruence. -/
theorem ScannedBelow.clean (h : ScannedBelow g g.classes.length [] g') (hg : g.WellFormed) :
    Clean g' where
  entry := by
    intro p hp
    obtain ⟨hlt, hroot, n, hn, hcanon⟩ := (mem_visits_iff hg).mp (h.mem_hashcons hp)
    rw [h.refines.root_eq, ← hcanon]
    exact ⟨hroot, h.holds_canon hlt hroot hn, canon_idem hg n⟩
  lookup := by
    intro r n hr hroot hn
    rw [h.refines.root_eq] at hroot ⊢
    rw [h.refines.classes_length] at hr
    have hcanon := h.canonical hg hr hroot hn
    have hvisit : (r, n) ∈ g.visitsBelow g.classes.length := by
      obtain ⟨m, hm, rfl | rfl⟩ := h.holds_old hg hn
      · exact (mem_visits_iff hg).mpr ⟨hr, hroot, n, hm, hcanon⟩
      · exact (mem_visits_iff hg).mpr ⟨hr, hroot, m, hm, rfl⟩
    obtain ⟨id, hlookup, hid⟩ := lookup_foldl_visit (f := g.root) hvisit
    rw [← h.table] at hlookup hid
    refine ⟨hcanon, ?_⟩
    rcases hid with hid | hmerges
    · have hself : g.root id = id :=
        ((mem_visits_iff hg).mp (h.mem_hashcons (mem_of_lookup hlookup))).2.1
      rw [hlookup, ← hself, hid, hroot]
    · exact (hmerges rfl).elim

/-- The pairs a pass collects are different congruent representatives. -/
theorem ScannedBelow.pair (h : ScannedBelow g g.classes.length merges g') (hg : Inv log g)
    (hpair : (a, b) ∈ merges) :
    a < g.classes.length ∧ b < g.classes.length ∧ g.root a ≠ g.root b ∧ log.Congruence a b := by
  have htable : merges = ((g.visitsBelow g.classes.length).foldl (visit g.root) ([], [])).2 :=
    congrArg Prod.snd h.table
  rw [htable] at hpair
  obtain ⟨c, r, s, hr, hs, hne, heq⟩ := mem_merges_foldl_visit hpair
  obtain ⟨hrlt, hrroot, n, hn, hnc⟩ := (mem_visits_iff hg.wellFormed).mp hr
  obtain ⟨hslt, hsroot, m, hm, hmc⟩ := (mem_visits_iff hg.wellFormed).mp hs
  rw [hrroot, hsroot] at hne heq
  have hcong : log.Congruence s r :=
    hg.sound.congruence_of_canon_eq hm hn (hmc.trans hnc.symm)
  unfold orderedPair at heq
  split at heq
  · cases heq
    exact ⟨hslt, hrlt, by rwa [hsroot, hrroot], hcong⟩
  · cases heq
    exact ⟨hrlt, hslt, by rw [hsroot, hrroot]; exact hne.symm,
      log.closed_congruence.equivalence.symm hcong⟩

/-- Merging two congruent ids. -/
theorem mergeInternal_keeps {done : Log} (hwf : g.WellFormed) (hsound : Sound log g)
    (hcomplete : Complete done g) (ha : a < g.classes.length)
    (hb : b < g.classes.length) (hcong : log.Congruence a b) :
    ∃ result g', g.mergeInternal a b = some (result, g') ∧ g'.WellFormed ∧ Sound log g' ∧
      Complete done g' ∧ g'.classes.length = g.classes.length ∧
      g'.nodeArena.length = g.nodeArena.length ∧ g'.root a = g'.root b ∧
      rootCount g'.parent ≤ rootCount g.parent ∧
      (g.root a ≠ g.root b → rootCount g'.parent < rootCount g.parent) := by
  obtain ⟨winner, changed, g', hrun, hcases⟩ := mergeInternal_spec hwf ha hb
  refine ⟨_, g', hrun, ?_⟩
  rcases hcases with ⟨heq, hcompressed⟩ | ⟨loser, hlinked, hwhich⟩
  · exact ⟨hcompressed.wellFormed hwf, hcompressed.keeps.1 hsound, hcompressed.keeps.2.1 hcomplete,
      by rw [hcompressed.classes_eq], by rw [hcompressed.nodeArena_eq],
      by rw [hcompressed.root_eq, heq], hcompressed.roots.rootCount_eq.le,
      fun hne => (hne heq).elim⟩
  have hroots : log.Congruence (g.root a) (g.root b) := by
    intro Q hQ
    exact hQ.equivalence.trans (hQ.equivalence.symm (hsound.root Q hQ a))
      (hQ.equivalence.trans (hcong Q hQ) (hsound.root Q hQ b))
  have hlink : log.Congruence winner loser := by
    rcases hwhich with ⟨rfl, rfl⟩ | ⟨rfl, rfl⟩
    · exact hroots
    · exact log.closed_congruence.equivalence.symm hroots
  refine ⟨hlinked.wellFormed hwf, hlinked.sound hsound hlink, hlinked.complete hwf hcomplete,
    hlinked.classes_length, by rw [hlinked.nodeArena_eq], ?_, hlinked.rootCount_lt.le,
    fun _ => hlinked.rootCount_lt⟩
  rw [hlinked.root_eq, hlinked.root_eq]
  rcases hwhich with ⟨hw, hl⟩ | ⟨hw, hl⟩ <;> rw [← hw, ← hl, if_pos rfl, if_neg hlinked.lt.ne]

theorem applyMerges_inv (hg : Inv log g)
    (hpairs : ∀ p ∈ merges, p.1 < g.classes.length ∧ p.2 < g.classes.length ∧
      log.Congruence p.1 p.2) :
    ∃ g', g.applyMerges merges = some g' ∧ Inv log g' ∧
      g'.classes.length = g.classes.length ∧ g'.nodeArena.length = g.nodeArena.length ∧
      rootCount g'.parent ≤ rootCount g.parent ∧
      ∀ p ∈ merges.head?, g.root p.1 ≠ g.root p.2 → rootCount g'.parent < rootCount g.parent := by
  induction merges generalizing g with
  | nil => exact ⟨g, rfl, hg, rfl, rfl, le_refl _, nofun⟩
  | cons p merges ih =>
    obtain ⟨a, b⟩ := p
    obtain ⟨ha, hb, hcong⟩ := hpairs (a, b) mem_cons_self
    obtain ⟨result, g₁, hrun, hwf₁, hsound₁, hcomplete₁, hlength, harena, -, hcount, hless⟩ :=
      mergeInternal_keeps hg.wellFormed hg.sound hg.complete ha hb hcong
    obtain ⟨g₂, hrest, hg₂, hlength₂, harena₂, hcount₂, -⟩ := ih ⟨hwf₁, hsound₁, hcomplete₁⟩ (by
      intro q hq
      rw [hlength]
      exact hpairs q (mem_cons_of_mem _ hq))
    refine ⟨g₂, ?_, hg₂, hlength₂.trans hlength, harena₂.trans harena, hcount₂.trans hcount, ?_⟩
    · unfold applyMerges at hrest ⊢
      simp only [foldlM_cons, hrun, Option.map_some]
      exact hrest
    · rintro _ ⟨⟩ hne
      exact hcount₂.trans_lt (hless hne)

theorem mem_sortMerges {p : EClassId × EClassId} (h : p ∈ sortMerges merges) : p ∈ merges := by
  have hsorted := (destutter_sublist _ _).subset h
  exact (mem_insertionSort _).mp hsorted

theorem sortMerges_ne_nil (h : merges ≠ []) : sortMerges merges ≠ [] := by
  unfold sortMerges
  intro hnil
  rw [destutter_eq_nil] at hnil
  have hlength := length_insertionSort (fun p q => toLex p ≤ toLex q) merges
  rw [hnil] at hlength
  exact h (length_eq_zero_iff.mp hlength.symm)

/-- Every round that merges takes a representative away, so the loop ends, with a table
that decides congruence. -/
theorem rebuildLoop_spec {fuel : Nat} (hg : Inv log g) (hfuel : rootCount g.parent < fuel) :
    ∃ g', rebuildLoop fuel g = some g' ∧ Inv log g' ∧ Clean g' ∧
      g'.classes.length = g.classes.length ∧ g'.nodeArena.length = g.nodeArena.length := by
  induction fuel generalizing g with
  | zero => omega
  | succ fuel ih =>
    obtain ⟨merges, g₁, hscan, hg₁⟩ := scan_spec hg.wellFormed
    have hinv₁ : Inv log g₁ := hg₁.inv hg
    have hclasses₁ := hg₁.refines.classes_length
    have harena₁ := hg₁.refines.length_eq
    by_cases hnil : merges = []
    · subst hnil
      refine ⟨g₁, ?_, hinv₁, hg₁.clean hg.wellFormed, hclasses₁, harena₁⟩
      simp [rebuildLoop, hscan]
    have hpairs : ∀ q ∈ sortMerges merges, q.1 < g₁.classes.length ∧ q.2 < g₁.classes.length ∧
        log.Congruence q.1 q.2 := by
      intro q hq
      obtain ⟨ha, hb, -, hcong⟩ := hg₁.pair hg (mem_sortMerges hq)
      rw [hclasses₁]
      exact ⟨ha, hb, hcong⟩
    obtain ⟨g₂, happly, hinv₂, hclasses₂, harena₂, -, hless⟩ := applyMerges_inv hinv₁ hpairs
    -- the first pair is of two representatives
    obtain ⟨p, rest, hsorted⟩ := exists_cons_of_ne_nil (sortMerges_ne_nil hnil)
    have hp : p ∈ merges := mem_sortMerges (by rw [hsorted]; exact mem_cons_self)
    have hless := hless p (by rw [hsorted]; rfl)
      (by rw [hg₁.refines.root_eq]; exact (hg₁.pair hg hp).2.2.1)
    rw [hg₁.refines.roots.rootCount_eq] at hless
    obtain ⟨g₃, hloop, hinv₃, hclean, hclasses₃, harena₃⟩ := ih hinv₂ (by omega)
    refine ⟨g₃, ?_, hinv₃, hclean, by omega, by omega⟩
    simp [rebuildLoop, hscan, hnil, happly, hloop]

theorem rebuildHashcons_spec (hg : Inv log g) :
    ∃ g', g.rebuildHashcons = some g' ∧ Inv log g' ∧ Clean g' ∧
      g'.classes.length = g.classes.length ∧ g'.nodeArena.length = g.nodeArena.length := by
  refine rebuildLoop_spec hg ?_
  rw [← hg.wellFormed.length_eq]
  exact Nat.lt_succ_of_le (countP_le_length.trans length_range.le)

end Rebuild

/-! ## Operations -/

/-- What holds between operations. -/
structure RunInv (log : Log) (g : EGraph) : Prop where
  inv : Inv log g
  clean : Clean g
  returned : ∀ id < g.classes.length, log.Returned id
  arena_le : g.nodeArena.length ≤ log.adds.length

section Operations

variable {log : Log} {g : EGraph}

theorem Sound.mono {log' : Log} (h : Sound log g) (hadds : ∀ p ∈ log.adds, p ∈ log'.adds)
    (hclosed : ∀ Q, log'.Closed Q → log.Closed Q) : Sound log' g where
  root := fun Q hQ => h.root Q (hclosed Q hQ)
  node := by
    intro r n hn
    obtain ⟨p, hp, hfollows⟩ := h.node r n hn
    exact ⟨p, hadds p hp, fun Q hQ => hfollows Q (hclosed Q hQ)⟩

theorem Sound.added (h : Sound log g) (n : ENode) (id : EClassId) : Sound (log.added n id) g :=
  h.mono (fun _ hp => mem_cons_of_mem _ hp) fun _ hQ => ⟨hQ.equivalence, hQ.merged,
    fun p hp q hq => hQ.congruent p (mem_cons_of_mem _ hp) q (mem_cons_of_mem _ hq)⟩

variable {n : ENode}

/-- Adding a node that is in the table already. -/
theorem RunInv.added_existing (h : RunInv log g) {id : EClassId}
    (hlookup : g.hashcons.lookup (n.canon g.root) = some id) : RunInv (log.added n id) g where
  inv :=
    { wellFormed := h.inv.wellFormed
      sound := h.inv.sound.added n id
      complete :=
        { issued := by
            intro p hp
            rcases mem_cons.mp hp with rfl | hold
            · have hentry := mem_of_lookup hlookup
              exact h.inv.wellFormed.hashcons (n.canon g.root, id) hentry
            · exact h.inv.complete.issued p hold
          node := by
            intro p hp
            rcases mem_cons.mp hp with rfl | hold
            · obtain ⟨hroot, hholds, hcanon⟩ := h.clean.entry _ (mem_of_lookup hlookup)
              exact ⟨n.canon g.root, hroot.symm ▸ hholds, hcanon⟩
            · exact h.inv.complete.node p hold
          merged := h.inv.complete.merged } }
  clean := h.clean
  returned := by
    intro r hr
    obtain ⟨m, hm⟩ := h.returned r hr
    exact ⟨m, mem_cons_of_mem _ hm⟩
  arena_le := h.arena_le.trans (Nat.le_succ _)

/-- The graph with a new class for a node. -/
def pushNode (g : EGraph) (canonical : ENode) : EGraph :=
  { nodeArena := g.nodeArena ++ [canonical]
    classes := g.classes ++ [{ id := g.classes.length, nodeIndices := [g.nodeArena.length] }]
    parent := g.parent ++ [g.classes.length]
    hashcons := (canonical, g.classes.length) :: g.hashcons }

theorem length_classes_pushNode (c : ENode) :
    (g.pushNode c).classes.length = g.classes.length + 1 := length_append

theorem length_nodeArena_pushNode (c : ENode) :
    (g.pushNode c).nodeArena.length = g.nodeArena.length + 1 := length_append

theorem root_pushNode (h : g.WellFormed) (c : ENode) : (g.pushNode c).root = g.root := by
  funext id
  unfold root pushNode
  rw [← h.length_eq]
  exact root_push h.decreasing id

theorem nodeIndices_pushNode (c : ENode) (r : EClassId) :
    (g.pushNode c).nodeIndices r =
      if r = g.classes.length then [g.nodeArena.length] else g.nodeIndices r := by
  unfold nodeIndices pushNode
  rcases Nat.lt_trichotomy r g.classes.length with hlt | heq | hgt
  · rw [if_neg hlt.ne, getElem?_append_left hlt]
  · subst heq
    simp
  · rw [if_neg hgt.ne', getElem?_eq_none, getElem?_eq_none hgt.le]
    rw [length_append]
    exact hgt

theorem holds_pushNode (h : g.WellFormed) {c : ENode} {r : EClassId} :
    (g.pushNode c).Holds r n ↔ g.Holds r n ∨ (r = g.classes.length ∧ n = c) := by
  have hslot {ni : Nat} (hni : ni < g.nodeArena.length) :
      (g.pushNode c).nodeArena[ni]? = g.nodeArena[ni]? := getElem?_append_left hni
  have hlast : (g.pushNode c).nodeArena[g.nodeArena.length]? = some c := by
    unfold pushNode
    simp
  unfold Holds
  rw [nodeIndices_pushNode]
  by_cases hr : r = g.classes.length
  · have hempty : g.nodeIndices r = [] := by
      unfold nodeIndices
      rw [hr, getElem?_eq_none (le_refl _)]
    rw [if_pos hr, hempty]
    simp [hlast, hr, eq_comm]
  · simp only [hr, false_and, or_false]
    refine exists_congr fun ni => and_congr_right fun hni => ?_
    rw [hslot (h.indices r ni hni)]

theorem wellFormed_pushNode (h : g.WellFormed) {c : ENode}
    (hc : ∀ d ∈ c.children, d < g.classes.length) : (g.pushNode c).WellFormed := by
  refine ⟨?_, ?_, ?_, ?_, ?_⟩
  · change Decreasing (g.parent ++ [g.classes.length])
    rw [← h.length_eq]
    exact decreasing_push h.decreasing
  · unfold pushNode
    simp [h.length_eq]
  · intro n hn d hd
    rw [length_classes_pushNode]
    rcases mem_append.mp hn with hold | hnew
    · exact Nat.lt_succ_of_lt (h.arena n hold d hd)
    · rw [List.mem_singleton.mp hnew] at hd
      exact Nat.lt_succ_of_lt (hc d hd)
  · intro r ni hni
    rw [nodeIndices_pushNode] at hni
    rw [length_nodeArena_pushNode]
    split at hni
    · rw [List.mem_singleton.mp hni]
      exact Nat.lt_succ_self _
    · exact Nat.lt_succ_of_lt (h.indices r ni hni)
  · intro p hp
    rw [length_classes_pushNode]
    rcases mem_cons.mp hp with rfl | hold
    · exact Nat.lt_succ_self _
    · exact Nat.lt_succ_of_lt (h.hashcons p hold)

/-- Adding a node that is not in the table. -/
theorem RunInv.pushNode (h : RunInv log g) (hn : ∀ c ∈ n.children, c < g.classes.length)
    (hlookup : g.hashcons.lookup (n.canon g.root) = none) :
    RunInv (log.added n g.classes.length) (g.pushNode (n.canon g.root)) := by
  have hwf := h.inv.wellFormed
  have hroot := root_pushNode hwf (n.canon g.root)
  have hnew : g.root g.classes.length = g.classes.length :=
    root_of_length_le (by rw [hwf.length_eq])
  refine ⟨⟨?_, ?_, ?_⟩, ?_, ?_, ?_⟩
  · refine wellFormed_pushNode hwf ?_
    intro d hd
    obtain ⟨c, hc, rfl⟩ := ENode.mem_children_canon.mp hd
    exact root_lt hwf (hn c hc)
  · have hsound := h.inv.sound.added n g.classes.length
    refine ⟨?_, ?_⟩
    · rw [hroot]
      exact hsound.root
    · intro r m hm
      rcases (holds_pushNode hwf).mp hm with hold | ⟨rfl, rfl⟩
      · exact hsound.node r m hold
      · refine ⟨(n, g.classes.length), mem_cons_self, ?_⟩
        intro Q hQ
        exact ⟨ENode.congruent_canon (hsound.root Q hQ) n, hQ.equivalence.refl _⟩
  · refine ⟨?_, ?_, ?_⟩
    · intro p hp
      rw [length_classes_pushNode]
      rcases mem_cons.mp hp with rfl | hold
      · exact Nat.lt_succ_self _
      · exact Nat.lt_succ_of_lt (h.inv.complete.issued p hold)
    · intro p hp
      rw [hroot]
      rcases mem_cons.mp hp with rfl | hold
      · refine ⟨n.canon g.root, (holds_pushNode hwf).mpr (.inr ⟨hnew, rfl⟩), canon_idem hwf n⟩
      · obtain ⟨m, hm, hcanon⟩ := h.inv.complete.node p hold
        exact ⟨m, (holds_pushNode hwf).mpr (.inl hm), hcanon⟩
    · rw [hroot]
      exact h.inv.complete.merged
  · refine ⟨?_, ?_⟩
    · intro p hp
      rw [hroot]
      rcases mem_cons.mp hp with rfl | hold
      · exact ⟨hnew, (holds_pushNode hwf).mpr (.inr ⟨rfl, rfl⟩), canon_idem hwf n⟩
      · obtain ⟨hself, hholds, hcanon⟩ := h.clean.entry p hold
        exact ⟨hself, (holds_pushNode hwf).mpr (.inl hholds), hcanon⟩
    intro r m hr hself hm
    rw [hroot] at hself ⊢
    have htable : (g.pushNode (n.canon g.root)).hashcons =
        (n.canon g.root, g.classes.length) :: g.hashcons := rfl
    rw [htable, lookup_cons]
    rcases (holds_pushNode hwf).mp hm with hold | ⟨rfl, rfl⟩
    · have hlt : r < g.classes.length := by
        by_contra hge
        obtain ⟨ni, hni, -⟩ := hold
        unfold nodeIndices at hni
        rw [getElem?_eq_none (Nat.le_of_not_lt hge)] at hni
        cases hni
      obtain ⟨hcanon, hfound⟩ := h.clean.lookup r m hlt hself hold
      refine ⟨hcanon, ?_⟩
      split
      · rename_i heq
        rw [beq_iff_eq] at heq
        rw [heq, hlookup] at hfound
        cases hfound
      · exact hfound
    · simp [canon_idem hwf n]
  · intro r hr
    rcases Nat.lt_or_ge r g.classes.length with hlt | hge
    · obtain ⟨m, hm⟩ := h.returned r hlt
      exact ⟨m, mem_cons_of_mem _ hm⟩
    · rw [length_classes_pushNode] at hr
      obtain rfl : r = g.classes.length := by omega
      exact ⟨n, mem_cons_self⟩
  · rw [length_nodeArena_pushNode]
    exact Nat.succ_le_succ h.arena_le

theorem Compressed.runInv {g' : EGraph} (hc : Compressed g g') (h : RunInv log g) :
    RunInv log g' := by
  obtain ⟨hsound, hcomplete, hclean⟩ : (Sound log g → _) ∧ _ := hc.keeps
  constructor
  case inv =>
    exact ⟨hc.wellFormed h.inv.wellFormed, hsound h.inv.sound, hcomplete h.inv.complete⟩
  case clean => exact hclean h.clean
  case returned => exact hc.classes_eq ▸ h.returned
  case arena_le => exact hc.nodeArena_eq ▸ h.arena_le

/-- Adding a node returns, unless the arena is full. -/
theorem addEnode_spec (h : RunInv log g) (hn : ∀ c ∈ n.children, c < g.classes.length) :
    (∃ id g', g.addEnode n = some (id, g') ∧ RunInv (log.added n id) g') ∨
      (g.addEnode n = none ∧ arenaIndexMax < g.nodeArena.length) := by
  obtain ⟨g₁, hcanon, hg₁⟩ := canonicalizeEnode_spec h.inv.wellFormed hn
  have h₁ := hg₁.runInv h
  cases hlookup : g₁.hashcons.lookup (n.canon g.root) with
  | some existing =>
    left
    rw [← hg₁.root_eq] at hlookup
    have hadded := h₁.added_existing hlookup
    obtain ⟨hroot, -, -⟩ := h₁.clean.entry _ (mem_of_lookup hlookup)
    obtain ⟨g₂, hfind, hg₂⟩ :=
      find_spec h₁.inv.wellFormed (h₁.inv.wellFormed.hashcons _ (mem_of_lookup hlookup))
    refine ⟨existing, g₂, ?_, hg₂.runInv hadded⟩
    rw [hg₁.root_eq] at hlookup
    simp only [addEnode, hcanon, Option.bind_eq_bind, Option.bind_some, hlookup]
    exact hfind.trans (by rw [show g₁.root existing = existing from hroot])
  | none =>
    by_cases hfull : g.nodeArena.length ≤ arenaIndexMax
    · left
      have hpushed := h₁.pushNode (by rw [hg₁.classes_eq]; exact hn) (by
        rw [hg₁.root_eq]
        exact hlookup)
      refine ⟨g₁.classes.length, _, ?_, hpushed⟩
      have hindex : arenaIndexFromLen g₁.nodeArena.length = some g₁.nodeArena.length := by
        unfold arenaIndexFromLen
        rw [hg₁.nodeArena_eq, if_pos hfull]
      simp only [addEnode, hcanon, Option.bind_eq_bind, Option.bind_some, hlookup, hindex,
        hg₁.root_eq]
      rfl
    · right
      have hindex : arenaIndexFromLen g₁.nodeArena.length = none := by
        unfold arenaIndexFromLen
        rw [hg₁.nodeArena_eq, if_neg hfull]
      refine ⟨?_, Nat.lt_of_not_le hfull⟩
      simp [addEnode, hcanon, hlookup, hindex]

/-- Merging returns. -/
theorem merge_spec (h : RunInv log g) {a b : EClassId} (ha : a < g.classes.length)
    (hb : b < g.classes.length) :
    ∃ winner g', g.merge a b = some (winner, g') ∧ RunInv (log.merged a b) g' := by
  -- The pair is in the log before the classes are linked, so only the claims of the graph
  -- refer to the new log at first.
  have hcong : (log.merged a b).Congruence a b :=
    fun Q hQ => hQ.merged (a, b) mem_cons_self
  have hsound : Sound (log.merged a b) g :=
    h.inv.sound.mono (fun _ hp => hp) fun _ hQ =>
      ⟨hQ.equivalence, fun p hp => hQ.merged p (mem_cons_of_mem _ hp), hQ.congruent⟩
  obtain ⟨⟨winner, changed⟩, g₁, hmerge, hwf₁, hsound₁, hcomplete₁, hclasses₁, harena₁, hroots, -⟩ :=
    mergeInternal_keeps h.inv.wellFormed hsound h.inv.complete ha hb hcong
  have hinv₁ : Inv (log.merged a b) g₁ := by
    refine ⟨hwf₁, hsound₁, hcomplete₁.issued, hcomplete₁.node, ?_⟩
    intro p hp
    rcases mem_cons.mp hp with rfl | hold
    · exact hroots
    · exact hcomplete₁.merged p hold
  obtain ⟨g₂, hrebuild, hinv₂, hclean, hclasses₂, harena₂⟩ := rebuildHashcons_spec hinv₁
  refine ⟨winner, g₂, ?_, hinv₂, hclean, ?_, ?_⟩
  · simp [merge, hmerge, hrebuild]
  · rw [hclasses₂, hclasses₁]
    exact h.returned
  · rw [harena₂, harena₁]
    exact h.arena_le

end Operations

/-! ## Runs -/

inductive Op where
  | addLeaf (label : String)
  | addJoin (children : List EClassId)
  | addRace (children : List EClassId)
  | addTimeout (child : EClassId) (duration : Nat)
  | merge (a b : EClassId)
deriving DecidableEq, Repr

/-- The ids an operation is given. -/
def Op.ids : Op → List EClassId
  | .addLeaf _ => []
  | .addJoin children | .addRace children => children
  | .addTimeout child _ => [child]
  | .merge a b => [a, b]

/-- One operation, recorded in the log. -/
def step (s : EGraph × Log) : Op → Option (EGraph × Log)
  | .addLeaf label => (s.1.addLeaf label).map (fun r => (r.2, s.2.added (.leaf label) r.1))
  | .addJoin children =>
    (s.1.addJoin children).map (fun r => (r.2, s.2.added (.join children) r.1))
  | .addRace children =>
    (s.1.addRace children).map (fun r => (r.2, s.2.added (.race children) r.1))
  | .addTimeout child duration =>
    (s.1.addTimeout child duration).map (fun r => (r.2, s.2.added (.timeout child duration) r.1))
  | .merge a b => (s.1.merge a b).map (fun r => (r.2, s.2.merged a b))

def run (ops : List Op) : Option (EGraph × Log) := ops.foldlM step (EGraph.new, Log.empty)

/-- Every operation is given ids that the graph has returned before. -/
def UsesReturned (ops : List Op) : Prop :=
  ∀ before op after, ops = before ++ op :: after → ∀ g log, run before = some (g, log) →
    ∀ id ∈ op.ids, log.Returned id

theorem run_snoc (ops : List Op) (op : Op) :
    run (ops ++ [op]) = (run ops).bind (fun s => step s op) := by
  simp [run, foldlM_append]

theorem runInv_new : RunInv Log.empty new := by
  refine ⟨⟨⟨nofun, rfl, nofun, nofun, nofun⟩, ⟨fun _ hQ => hQ.equivalence.refl, ?_⟩,
    ⟨nofun, nofun, nofun⟩⟩, ⟨nofun, nofun⟩, nofun, le_refl _⟩
  rintro r n ⟨ni, hni, -⟩
  cases hni

variable {id : EClassId}

variable {log : Log} {g : EGraph}

theorem RunInv.lt_of_returned (h : RunInv log g) (hid : log.Returned id) :
    id < g.classes.length := by
  obtain ⟨n, hn⟩ := hid
  exact h.inv.complete.issued _ hn

/-- One operation keeps the invariant, and returns unless the arena is full. -/
theorem step_spec (h : RunInv log g) {op : Op} (hop : ∀ id ∈ op.ids, log.Returned id) :
    (∃ g' log', step (g, log) op = some (g', log') ∧ RunInv log' g' ∧
      log'.adds.length ≤ log.adds.length + 1) ∨
      (step (g, log) op = none ∧ arenaIndexMax < log.adds.length) := by
  have hids : ∀ id ∈ op.ids, id < g.classes.length := fun id hid => h.lt_of_returned (hop id hid)
  have hadd {n : ENode} (hn : ∀ c ∈ n.children, c < g.classes.length) :
      (∃ g' log', (g.addEnode n).map (fun r => (r.2, log.added n r.1)) = some (g', log') ∧
        RunInv log' g' ∧ log'.adds.length ≤ log.adds.length + 1) ∨
        ((g.addEnode n).map (fun r => (r.2, log.added n r.1)) = none ∧
          arenaIndexMax < log.adds.length) := by
    rcases addEnode_spec h hn with ⟨id, g', hrun, hinv⟩ | ⟨hnone, hfull⟩
    · exact .inl ⟨g', log.added n id, by rw [hrun]; rfl, hinv, le_refl _⟩
    · exact .inr ⟨by rw [hnone]; rfl, Nat.lt_of_lt_of_le hfull h.arena_le⟩
  cases op with
  | addLeaf label => exact hadd (by simp [ENode.children])
  | addJoin children | addRace children | addTimeout child duration => exact hadd hids
  | merge a b =>
    left
    obtain ⟨winner, g', hrun, hinv⟩ := merge_spec h (hids a (by simp [Op.ids]))
      (hids b (by simp [Op.ids]))
    exact ⟨g', log.merged a b, by simp [step, hrun], hinv, Nat.le_succ _⟩

variable {ops : List Op}

theorem UsesReturned.left {op : Op} (h : UsesReturned (ops ++ [op])) : UsesReturned ops := by
  intro before op' after hsplit
  refine h before op' (after ++ [op]) ?_
  rw [hsplit]
  simp

/-- A run keeps the invariant, and returns as long as the arena has room; at most one node
is added by each operation. -/
theorem run_spec (h : UsesReturned ops) :
    (∃ g log, run ops = some (g, log) ∧ RunInv log g ∧ log.adds.length ≤ ops.length) ∨
      (run ops = none ∧ arenaIndexMax + 1 < ops.length) := by
  induction ops using reverseRecOn with
  | nil => exact .inl ⟨new, Log.empty, rfl, runInv_new, le_refl _⟩
  | append_singleton ops op ih =>
    rw [run_snoc, length_append, length_singleton]
    rcases ih h.left with ⟨g, log, hrun, hinv, hlength⟩ | ⟨hnone, hfull⟩
    · rw [hrun]
      rcases step_spec hinv (h ops op [] rfl g log hrun) with
        ⟨g', log', hstep, hinv', hlength'⟩ | ⟨hstep, hfull⟩
      · exact .inl ⟨g', log', hstep, hinv', by omega⟩
      · exact .inr ⟨hstep, by omega⟩
    · rw [hnone]
      exact .inr ⟨rfl, by omega⟩

/-! ## The theorem -/

/-- The representative `find` returns. -/
def findId (g : EGraph) (id : EClassId) : Option EClassId := (g.find id).map Prod.fst

theorem RunInv.findId_eq (h : RunInv log g) (hid : log.Returned id) :
    g.findId id = some (g.root id) := by
  obtain ⟨g', hfind, -⟩ := find_spec h.inv.wellFormed (h.lt_of_returned hid)
  unfold findId
  rw [hfind]
  rfl

/-- Having one representative is closed under congruence of the added nodes. -/
theorem RunInv.closed_root (h : RunInv log g) : log.Closed (fun a b => g.root a = g.root b) where
  equivalence := ⟨fun _ => rfl, Eq.symm, Eq.trans⟩
  merged := h.inv.complete.merged
  congruent := by
    intro p hp q hq hcong
    obtain ⟨n, hn, hncanon⟩ := h.inv.complete.node p hp
    obtain ⟨m, hm, hmcanon⟩ := h.inv.complete.node q hq
    have hwf := h.inv.wellFormed
    have hlookup (r : ENode × EClassId) (hr : r ∈ log.adds) {k : ENode}
        (hk : g.Holds (g.root r.2) k) :=
      h.clean.lookup (g.root r.2) k (root_lt hwf (h.inv.complete.issued r hr))
        (root_root hwf r.2) hk
    have hnm : n = m := by
      rw [← (hlookup p hp hn).1, ← (hlookup q hq hm).1, hncanon, hmcanon]
      exact ENode.canon_eq_of_congruent hcong
    have hsame := (hlookup p hp hn).2.symm.trans (hnm ▸ (hlookup q hq hm).2)
    exact Option.some.inj hsame

theorem RunInv.root_eq_iff (h : RunInv log g) {a b : EClassId} :
    g.root a = g.root b ↔ log.Congruence a b := by
  constructor
  · intro heq Q hQ
    refine hQ.equivalence.trans (h.inv.sound.root Q hQ a) ?_
    rw [heq]
    exact hQ.equivalence.symm (h.inv.sound.root Q hQ b)
  · intro hcong
    exact hcong _ h.closed_root

theorem mapM_getElem? {arena : List ENode} {indices : List Nat}
    (h : ∀ ni ∈ indices, ni < arena.length) :
    ∃ nodes, indices.mapM (fun ni => arena[ni]?) = some nodes ∧
      ∀ ni ∈ indices, ∀ n, arena[ni]? = some n → n ∈ nodes := by
  induction indices with
  | nil => exact ⟨[], rfl, by simp⟩
  | cons ni indices ih =>
    obtain ⟨nodes, hnodes, hmem⟩ := ih (fun nj hnj => h nj (mem_cons_of_mem ni hnj))
    have hni : ni < arena.length := h ni mem_cons_self
    have hslot : arena[ni]? = some arena[ni] := getElem?_eq_getElem hni
    refine ⟨arena[ni] :: nodes, by simp [mapM_cons, hslot, hnodes], ?_⟩
    intro nj hnj n hn
    rcases mem_cons.mp hnj with rfl | hrest
    · rw [hslot] at hn
      rw [← Option.some.inj hn]
      exact mem_cons_self
    · exact mem_cons_of_mem _ (hmem nj hrest n hn)

/-- The nodes that are read for a representative are those its class holds. -/
theorem classNodesCloned_holds (h : g.WellFormed) (hid : id < g.classes.length)
    (hroot : g.root id = id) {n : ENode} (hn : g.Holds id n) :
    ∃ nodes, (g.classNodesCloned id).map Prod.fst = some nodes ∧ n ∈ nodes := by
  obtain ⟨g', hfind, hg'⟩ := find_spec h hid
  rw [hroot] at hfind
  have hclass : g.classes[id]? = some g.classes[id] := getElem?_eq_getElem hid
  have hindices : g.nodeIndices id = g.classes[id].nodeIndices := by
    unfold nodeIndices
    rw [hclass]
  obtain ⟨nodes, hnodes, hmem⟩ := mapM_getElem? (h.indices id)
  obtain ⟨ni, hni, hslot⟩ := hn
  refine ⟨nodes, ?_, hmem ni hni n hslot⟩
  rw [hindices] at hnodes
  simp [classNodesCloned, hfind, hg'.classes_eq, hg'.nodeArena_eq, hclass, hnodes]

end EGraph

open EGraph

/-- **Congruence closure.**  After every sequence of operations on ids the graph has
returned: two ids have the same representative exactly if they are in the least
equivalence that contains the merged pairs and is closed under congruence; a
representative is the smallest id of its class; every entry of the table maps a canonical
node to a class that holds it.  The operations return as long as the arena has room, so
the rebuild loop ends. -/
theorem congruence_closure (ops : List EGraph.Op) (h : UsesReturned ops) :
    (∀ g log, run ops = some (g, log) →
      log.Closed log.Congruence ∧
      (∀ a b, log.Returned a → log.Returned b → (g.findId a = g.findId b ↔ log.Congruence a b)) ∧
      (∀ a, log.Returned a → ∃ r, g.findId a = some r ∧ log.Returned r ∧
        ∀ b, log.Returned b → g.findId b = some r → r ≤ b) ∧
      (∀ n id, (n, id) ∈ g.hashcons →
        (g.canonicalizeEnode n).map Prod.fst = some n ∧
          ∃ nodes, (g.classNodesCloned id).map Prod.fst = some nodes ∧ n ∈ nodes)) ∧
      (ops.length ≤ arenaIndexMax + 1 → ∃ g log, run ops = some (g, log)) := by
  rcases run_spec h with ⟨g, log, hrun, hinv, -⟩ | ⟨hnone, hfull⟩
  swap
  · refine ⟨fun g log hrun => ?_, fun hroom => by omega⟩
    cases hnone.symm.trans hrun
  refine ⟨fun g log hrun' => ?_, fun _ => ⟨g, log, hrun⟩⟩
  cases hrun.symm.trans hrun'
  have hwf := hinv.inv.wellFormed
  refine ⟨log.closed_congruence, ?_, ?_, ?_⟩
  · intro a b ha hb
    rw [hinv.findId_eq ha, hinv.findId_eq hb, Option.some.injEq]
    exact hinv.root_eq_iff
  · intro a ha
    refine ⟨g.root a, hinv.findId_eq ha, ?_, ?_⟩
    · exact hinv.returned _ (EGraph.root_lt hwf (hinv.lt_of_returned ha))
    · intro b hb hfind
      rw [hinv.findId_eq hb] at hfind
      rw [← Option.some.inj hfind]
      exact root_le hwf.decreasing b
  · intro n id hentry
    obtain ⟨hroot, hholds, hcanon⟩ := hinv.clean.entry _ hentry
    have hid : id < g.classes.length := hwf.hashcons _ hentry
    refine ⟨?_, classNodesCloned_holds hwf hid hroot hholds⟩
    obtain ⟨ni, -, hslot⟩ := hholds
    obtain ⟨g', hrun', -⟩ := canonicalizeEnode_spec hwf (hwf.arena n (mem_of_getElem? hslot))
    rw [hrun', hcanon]
    rfl

/-- The ids a run has returned. -/
def returnedIds (ops : List EGraph.Op) : List EClassId :=
  ((run ops).map (fun s => s.2.adds.map Prod.snd)).getD []

theorem usesReturned_nil : UsesReturned [] := by
  intro before op after hsplit
  simp at hsplit

theorem returned_of_mem {ops : List Op} {g : EGraph} {log : Log}
    (hrun : run ops = some (g, log)) {id : EClassId} (h : id ∈ returnedIds ops) :
    log.Returned id := by
  unfold returnedIds at h
  rw [hrun] at h
  obtain ⟨⟨n, id'⟩, hn, rfl⟩ := mem_map.mp h
  exact ⟨n, hn⟩

theorem EGraph.UsesReturned.snoc {ops : List Op} (h : UsesReturned ops) (op : Op)
    (hop : ∀ id ∈ op.ids, id ∈ returnedIds ops) : UsesReturned (ops ++ [op]) := by
  intro before op' after hsplit g log hrun id hid
  rcases Lib.snoc_cases hsplit with ⟨rfl, rfl, -⟩ | ⟨after', -, hold⟩
  · exact returned_of_mem hrun (hop id hid)
  · exact h before op' after' hold g log hrun id hid

/-- Two joins over different leaves, which are then merged. -/
def joinsOfMergedLeaves : List EGraph.Op :=
  [.addLeaf "a", .addLeaf "b", .addJoin [0], .addJoin [1], .merge 0 1]

theorem usesReturned_joinsOfMergedLeaves : UsesReturned joinsOfMergedLeaves :=
  ((((usesReturned_nil.snoc (.addLeaf "a") (by decide)).snoc (.addLeaf "b") (by decide)).snoc
    (.addJoin [0]) (by decide)).snoc (.addJoin [1]) (by decide)).snoc (.merge 0 1) (by decide)

theorem congruence_closure_joins :
    ∃ g log, run joinsOfMergedLeaves = some (g, log) ∧ log.Congruence 2 3 ∧
      ¬ log.Congruence 0 2 := by
  obtain ⟨hresults, htotal⟩ :=
    congruence_closure joinsOfMergedLeaves usesReturned_joinsOfMergedLeaves
  obtain ⟨g, log, hrun⟩ := htotal (by decide)
  obtain ⟨-, hiff, -⟩ := hresults g log hrun
  have hids (id : EClassId) (h : id ∈ [0, 1, 2, 3]) : log.Returned id := by
    refine returned_of_mem hrun ?_
    have hreturned : ∀ id ∈ [0, 1, 2, 3], id ∈ returnedIds joinsOfMergedLeaves := by decide
    exact hreturned id h
  have hfind : (run joinsOfMergedLeaves).map
      (fun s => (s.1.findId 0, s.1.findId 2, s.1.findId 3)) = some (some 0, some 2, some 2) := by
    decide
  rw [hrun] at hfind
  obtain ⟨h₀, h₂, h₃⟩ : g.findId 0 = some 0 ∧ g.findId 2 = some 2 ∧ g.findId 3 = some 2 := by
    simpa using hfind
  refine ⟨g, log, hrun, (hiff 2 3 (hids 2 (by simp)) (hids 3 (by simp))).mp (h₂.trans h₃.symm), ?_⟩
  intro hcong
  have heq := (hiff 0 2 (hids 0 (by simp)) (hids 2 (by simp))).mpr hcong
  rw [h₀, h₂] at heq
  exact absurd heq (by decide)

section Order

variable {ops ops' : List EGraph.Op} {g g' : EGraph} {log log' : Log}

theorem EGraph.RunInv.of_run (h : UsesReturned ops) (hrun : run ops = some (g, log)) :
    RunInv log g := by
  rcases run_spec h with ⟨_, _, hsome, hinv, -⟩ | ⟨hnone, -⟩
  · cases hsome.symm.trans hrun
    exact hinv
  · cases hnone.symm.trans hrun

/-- More nodes and more merges only lower the representatives. -/
theorem EGraph.RunInv.root_le_root (h : RunInv log g) (h' : RunInv log' g')
    (hadds : ∀ p ∈ log.adds, p ∈ log'.adds) (hmerges : ∀ p ∈ log.merges, p ∈ log'.merges)
    (id : EClassId) : g'.root id ≤ g.root id := by
  have hcong := h.root_eq_iff.mp (root_root h.inv.wellFormed id)
  have hsame : g'.root (g.root id) = g'.root id :=
    h'.root_eq_iff.mpr fun Q hQ => hcong Q ⟨hQ.equivalence, fun p hp => hQ.merged p (hmerges p hp),
      fun p hp q hq => hQ.congruent p (hadds p hp) q (hadds q hq)⟩
  rw [← hsame]
  exact root_le h'.inv.wellFormed.decreasing _

/-- **The order does not matter.**  Two graphs with the same added nodes and merged pairs give
an id the same representative, in whatever order and however often these were given. -/
theorem representatives_from_log (h : UsesReturned ops) (h' : UsesReturned ops')
    (hrun : run ops = some (g, log)) (hrun' : run ops' = some (g', log'))
    (hadds : ∀ p, p ∈ log.adds ↔ p ∈ log'.adds)
    (hmerges : ∀ p, p ∈ log.merges ↔ p ∈ log'.merges) {id : EClassId} (hid : log.Returned id) :
    g.findId id = g'.findId id := by
  have hinv := RunInv.of_run h hrun
  have hinv' := RunInv.of_run h' hrun'
  rw [hinv.findId_eq hid, hinv'.findId_eq (hid.imp fun n => (hadds _).mp)]
  have hle := hinv.root_le_root hinv' (fun p => (hadds p).mp) (fun p => (hmerges p).mp) id
  have hge := hinv'.root_le_root hinv (fun p => (hadds p).mpr) (fun p => (hmerges p).mpr) id
  rw [le_antisymm hge hle]

end Order

/-- A merge that is made twice. -/
theorem representatives_from_log_joins :
    ∃ g log g' log', run joinsOfMergedLeaves = some (g, log) ∧
      run (joinsOfMergedLeaves ++ [.merge 0 1]) = some (g', log') ∧ g.findId 3 = g'.findId 3 := by
  have h := usesReturned_joinsOfMergedLeaves
  refine ⟨_, _, _, _, rfl, rfl, representatives_from_log h (h.snoc (.merge 0 1) (by decide))
    rfl rfl (fun _ => Iff.rfl) (fun p => ?_) ⟨.join [1], .head _⟩⟩
  simp [Log.merged]

end Asupersync
