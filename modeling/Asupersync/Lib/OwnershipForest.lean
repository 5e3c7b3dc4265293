import Mathlib.Data.List.Nodup
import Mathlib.Logic.Relation

/-!
# Ownership forests

Groups of items form a forest: a group has a parent, a list of children and a list
of the items it owns, and an item has an owner.  `Forest` says that both directions
of each link agree and that the parent links have no cycle.

**Results.**
* `Forest.addRoot`, `Forest.addChild`, `Forest.addItem`, `Forest.removeItem` and
  `Forest.removeLeaf`: the changes that keep a forest.
* `Below`: the groups of a subtree; `Forest.not_below_of_hasParent`: no group has its
  parent in its subtree.
-/

namespace Asupersync

open Function List
namespace Lib

universe u v

/-- A group of a forest. -/
structure Node (G : Type u) (T : Type v) where
  parent : Option G
  children : List G
  items : List T

namespace Node

variable {G : Type u} {T : Type v}

def root : Node G T := { parent := none, children := [], items := [] }

def child (parent : G) : Node G T := { parent := some parent, children := [], items := [] }

def addChild (n : Node G T) (c : G) : Node G T := { n with children := n.children ++ [c] }

def addItem (n : Node G T) (t : T) : Node G T := { n with items := n.items ++ [t] }

def removeChild [DecidableEq G] (n : Node G T) (c : G) : Node G T :=
  { n with children := n.children.filter (· ≠ c) }

def removeItem [DecidableEq T] (n : Node G T) (t : T) : Node G T :=
  { n with items := n.items.filter (· ≠ t) }

end Node

variable {G : Type u} {T : Type v}

section Links

variable (node : G → Option (Node G T))

/-- `p` lists `g` among its children. -/
def ListsChild (p g : G) : Prop := ∃ m, node p = some m ∧ g ∈ m.children

/-- `g` names `p` as its parent. -/
def HasParent (g p : G) : Prop := ∃ n, node g = some n ∧ n.parent = some p

/-- `g` lists `t` among its items. -/
def ListsItem (g : G) (t : T) : Prop := ∃ n, node g = some n ∧ t ∈ n.items

theorem HasParent.unique {node : G → Option (Node G T)} {g p p' : G}
    (h : HasParent node g p) (h' : HasParent node g p') : p = p' := by
  obtain ⟨n, hn, hp⟩ := h
  obtain ⟨n', hn', hp'⟩ := h'
  cases hn.symm.trans hn'
  exact Option.some.inj (hp.symm.trans hp')

variable [DecidableEq G] (g : G) (new : Option (Node G T))

theorem listsChild_update (p k : G) :
    ListsChild (update node g new) p k ↔
      if p = g then ∃ m, new = some m ∧ k ∈ m.children else ListsChild node p k := by
  split_ifs with h
  · rw [h, ListsChild, update_self]
  · rw [ListsChild, update_of_ne h, ListsChild]

theorem hasParent_update (k p : G) :
    HasParent (update node g new) k p ↔
      if k = g then ∃ n, new = some n ∧ n.parent = some p else HasParent node k p := by
  split_ifs with h
  · rw [h, HasParent, update_self]
  · rw [HasParent, update_of_ne h, HasParent]

theorem listsItem_update (k : G) (t : T) :
    ListsItem (update node g new) k t ↔
      if k = g then ∃ n, new = some n ∧ t ∈ n.items else ListsItem node k t := by
  split_ifs with h
  · rw [h, ListsItem, update_self]
  · rw [ListsItem, update_of_ne h, ListsItem]

end Links

/-- Both directions of every link agree, and parents come before their children in
some ranking. -/
structure Forest (node : G → Option (Node G T)) (owner : T → Option G) : Prop where
  links : ∀ p g, ListsChild node p g ↔ HasParent node g p
  owns : ∀ g t, ListsItem node g t ↔ owner t = some g
  nodup : ∀ g n, node g = some n → n.children.Nodup ∧ n.items.Nodup
  ranked : ∃ rank : G → Nat, ∀ g p, HasParent node g p → rank p < rank g

/-- `Below node g h`: `h` is in the subtree of `g`. -/
def Below (node : G → Option (Node G T)) : G → G → Prop :=
  Relation.ReflTransGen fun p c => HasParent node c p

namespace Forest

variable {node : G → Option (Node G T)} {owner : T → Option G} {node' : G → Option (Node G T)}
  {owner' : T → Option G}

theorem empty : Forest (fun _ : G => (none : Option (Node G T))) fun _ : T => none := by
  constructor
  case links => simp [ListsChild, HasParent]
  case owns => simp [ListsItem]
  case nodup => exact fun _ _ h => (nomatch h)
  case ranked => exact ⟨fun _ => 0, fun _ _ ⟨_, h, _⟩ => (nomatch h)⟩

section

variable (h : Forest node owner)

include h

/-- A group that is not there is nobody's child. -/
theorem not_listsChild_of_absent {g : G} (habsent : node g = none) (p : G) :
    ¬ ListsChild node p g := by
  intro hlists
  obtain ⟨n, hn, -⟩ := (h.links p g).mp hlists
  rw [habsent] at hn
  cases hn

theorem not_hasParent_self (g : G) : ¬ HasParent node g g := by
  intro hparent
  obtain ⟨rank, hrank⟩ := h.ranked
  exact Nat.lt_irrefl _ (hrank g g hparent)

theorem not_below_of_hasParent {g p : G} (hparent : HasParent node g p) : ¬ Below node g p := by
  intro hbelow
  obtain ⟨rank, hrank⟩ := h.ranked
  have hlt := hrank g p hparent
  have hle : rank g ≤ rank p := by
    clear hlt hparent
    induction hbelow with
    | refl => exact Nat.le_refl _
    | tail _ hlink ih => exact Nat.le_trans ih (Nat.le_of_lt (hrank _ _ hlink))
  exact Nat.lt_irrefl _ (Nat.lt_of_lt_of_le hlt hle)

theorem congr (hnode : ∀ g, node' g = node g) (howner : ∀ t, owner' t = owner t) :
    Forest node' owner' := by
  obtain rfl : node' = node := funext hnode
  obtain rfl : owner' = owner := funext howner
  exact h

end

section Changes

variable [DecidableEq G]

variable {g : G} {n' : Node G T}

theorem nodup_update (h : ∀ k n, node k = some n → n.children.Nodup ∧ n.items.Nodup)
    (hnew : n'.children.Nodup ∧ n'.items.Nodup) :
    ∀ k n, update node g (some n') k = some n → n.children.Nodup ∧ n.items.Nodup := by
  refine (forall_update_iff node fun _ o => ∀ n, o = some n → n.children.Nodup ∧ n.items.Nodup).mpr
    ⟨?_, fun k _ => h k⟩
  rintro _ ⟨⟩
  exact hnew

variable (h : Forest node owner)

include h

/-- A group gets another record with the same links; only its items change. -/
theorem replace (hparent : ∀ p, n'.parent = some p ↔ HasParent node g p)
    (hchildren : ∀ k, k ∈ n'.children ↔ ListsChild node g k)
    (hnodup : n'.children.Nodup ∧ n'.items.Nodup) (hself : ∀ t, t ∈ n'.items ↔ owner' t = some g)
    (hother : ∀ k, k ≠ g → ∀ t, owner' t = some k ↔ owner t = some k) :
    Forest (update node g (some n')) owner' := by
  have hp : ∀ k p, HasParent (update node g (some n')) k p ↔ HasParent node k p := by
    intro k p
    rw [hasParent_update]
    split_ifs with hk
    · simpa [hk] using hparent p
    · exact Iff.rfl
  constructor
  case links =>
    intro p k
    rw [hp, ← h.links, listsChild_update]
    split_ifs with hk
    · simpa [hk] using hchildren k
    · exact Iff.rfl
  case owns =>
    intro k t
    rw [listsItem_update]
    split_ifs with hk
    · simpa [hk] using hself t
    · rw [h.owns, hother k hk]
  case nodup => exact nodup_update h.nodup hnodup
  case ranked =>
    obtain ⟨rank, hrank⟩ := h.ranked
    exact ⟨rank, fun k p hk => hrank k p ((hp k p).mp hk)⟩

theorem addRoot (habsent : node g = none) : Forest (update node g (some .root)) owner := by
  refine h.replace ?_ ?_ ⟨nodup_nil, nodup_nil⟩ (fun t => ?_) fun _ _ _ => Iff.rfl
  · simp [Node.root, HasParent, habsent]
  · simp [Node.root, ListsChild, habsent]
  · rw [← h.owns]
    simp [Node.root, ListsItem, habsent]

theorem addChild {p c : G} {m : Node G T} (hp : node p = some m) (habsent : node c = none) :
    Forest (update (update node p (some (m.addChild c))) c (some (.child p)))
      owner := by
  have hne : p ≠ c := by
    rintro rfl
    rw [habsent] at hp
    cases hp
  have hlists : ∀ q k, ListsChild (update (update node p (some (m.addChild c))) c
        (some (.child p))) q k ↔ ListsChild node q k ∨ q = p ∧ k = c := by
    intro q k
    rw [listsChild_update, listsChild_update]
    by_cases hqc : q = c
    · subst hqc
      simp [Node.child, ListsChild, habsent, hne.symm]
    · rw [if_neg hqc]
      by_cases hqp : q = p
      · subst hqp
        simp [Node.addChild, ListsChild, hp]
      · simp [hqp]
  have hparent : ∀ k q, HasParent (update (update node p (some (m.addChild c))) c
        (some (.child p))) k q ↔ HasParent node k q ∨ q = p ∧ k = c := by
    intro k q
    rw [hasParent_update, hasParent_update]
    by_cases hkc : k = c
    · subst hkc
      simp [Node.child, HasParent, habsent, eq_comm]
    · by_cases hkp : k = p
      · subst hkp
        simp [Node.addChild, HasParent, hp, hne]
      · simp [hkp, hkc]
  constructor
  case links =>
    intro q k
    rw [hlists, hparent, h.links]
  case owns =>
    intro k t
    rw [← h.owns, listsItem_update, listsItem_update]
    by_cases hkc : k = c
    · subst hkc
      simp [Node.child, ListsItem, habsent]
    · rw [if_neg hkc]
      by_cases hkp : k = p
      · subst hkp
        simp [Node.addChild, ListsItem, hp]
      · rw [if_neg hkp]
  case nodup =>
    obtain ⟨hchildren, hitems⟩ := h.nodup p m hp
    have hfresh : c ∉ m.children :=
      fun hmem => h.not_listsChild_of_absent habsent p ⟨m, hp, hmem⟩
    refine nodup_update (nodup_update h.nodup ?_) ⟨nodup_nil, nodup_nil⟩
    exact ⟨hchildren.append (nodup_singleton c) (by simpa using hfresh), hitems⟩
  case ranked =>
    -- the new child comes after its parent, and nobody is below it yet
    obtain ⟨rank, hrank⟩ := h.ranked
    refine ⟨update rank c (rank p + 1), fun k q hkq => ?_⟩
    rcases (hparent k q).mp hkq with hold | ⟨rfl, rfl⟩
    · have hkc : k ≠ c := by
        rintro rfl
        obtain ⟨n, hn, -⟩ := hold
        rw [habsent] at hn
        cases hn
      have hqc : q ≠ c := by
        rintro rfl
        obtain ⟨m, hm, -⟩ := (h.links q k).mpr hold
        cases habsent.symm.trans hm
      rw [update_of_ne hkc, update_of_ne hqc]
      exact hrank k q hold
    · rw [update_self, update_of_ne hne]
      exact Nat.lt_succ_self _

variable {n : Node G T}

/-- Removing a group without children and items, and unlisting it. -/
theorem removeLeaf (hg : node g = some n) (hchildren : n.children = []) (hitems : n.items = [])
    (hgone : node' g = none)
    (hparent : ∀ k, k ≠ g → n.parent = some k → node' k = (node k).map (·.removeChild g))
    (hother : ∀ k, k ≠ g → n.parent ≠ some k → node' k = node k) :
    Forest node' owner := by
  -- groups that do not list `g` are unchanged by unlisting it
  have hmap : ∀ k, k ≠ g → node' k = (node k).map (·.removeChild g) := by
    intro k hk
    by_cases hkp : n.parent = some k
    · exact hparent k hk hkp
    rw [hother k hk hkp]
    cases hnode : node k with
    | none => rfl
    | some m =>
      have hnot : g ∉ m.children := by
        intro hmem
        obtain ⟨n', hn', hp⟩ := (h.links k g).mp ⟨m, hnode, hmem⟩
        rw [hg] at hn'
        cases hn'
        exact hkp hp
      have hsame : m.removeChild g = m := by
        have hfilter : m.children.filter (· ≠ g) = m.children :=
          filter_eq_self.mpr fun a ha => decide_eq_true fun heq => hnot (heq ▸ ha)
        simp only [Node.removeChild, hfilter]
      rw [Option.map_some, hsame]
  have hlists : ∀ p k, ListsChild node' p k ↔ ListsChild node p k ∧ k ≠ g := by
    intro p k
    by_cases hp : p = g
    · subst hp
      simp [ListsChild, hgone, hg, hchildren]
    · rw [ListsChild, hmap p hp, ListsChild]
      cases node p <;> simp [Node.removeChild]
  have hhas : ∀ k p, HasParent node' k p ↔ HasParent node k p ∧ k ≠ g := by
    intro k p
    by_cases hk : k = g
    · subst hk
      simp [HasParent, hgone]
    · rw [HasParent, hmap k hk, HasParent]
      cases node k <;> simp [Node.removeChild, hk]
  constructor
  case links =>
    intro p k
    rw [hlists, hhas, h.links]
  case owns =>
    intro k t
    rw [← h.owns]
    by_cases hk : k = g
    · subst hk
      simp [ListsItem, hgone, hg, hitems]
    · rw [ListsItem, hmap k hk, ListsItem]
      cases node k <;> simp [Node.removeChild]
  case nodup =>
    intro k m hk
    have hkg : k ≠ g := by
      rintro rfl
      rw [hgone] at hk
      cases hk
    rw [hmap k hkg] at hk
    obtain ⟨m', hm', rfl⟩ := Option.map_eq_some_iff.mp hk
    obtain ⟨hnodup, hitems'⟩ := h.nodup k m' hm'
    exact ⟨hnodup.filter _, hitems'⟩
  case ranked =>
    obtain ⟨rank, hrank⟩ := h.ranked
    exact ⟨rank, fun k p hk => hrank k p ((hhas k p).mp hk).1⟩

variable [DecidableEq T]

/-- One item enters or leaves the list of a group. -/
theorem setItems {t : T} {o : Option G} (hg : node g = some n)
    (hparent : n'.parent = n.parent) (hchildren : n'.children = n.children)
    (hnodup : n'.items.Nodup) (hitems : ∀ u, u ≠ t → (u ∈ n'.items ↔ u ∈ n.items))
    (hself : t ∈ n'.items ↔ o = some g) (hother : ∀ k, k ≠ g → owner t ≠ some k ∧ o ≠ some k) :
    Forest (update node g (some n')) (update owner t o) := by
  refine h.replace ?_ ?_ ⟨hchildren ▸ (h.nodup g n hg).1, hnodup⟩ (fun u => ?_) fun k hk u => ?_
  · simp [HasParent, hg, hparent]
  · simp [ListsChild, hg, hchildren]
  · rcases eq_or_ne u t with rfl | hu
    · rwa [update_self]
    · rw [update_of_ne hu, ← h.owns]
      simp [ListsItem, hg, hitems u hu]
  · rcases eq_or_ne u t with rfl | hu
    · rw [update_self]
      exact iff_of_false (hother k hk).2 (hother k hk).1
    · rw [update_of_ne hu]

theorem addItem {t : T} (hg : node g = some n) (habsent : owner t = none) :
    Forest (update node g (some (n.addItem t))) (update owner t (some g)) := by
  have hnot : t ∉ n.items := fun hmem => by
    cases habsent.symm.trans ((h.owns g t).mp ⟨n, hg, hmem⟩)
  refine h.setItems hg rfl rfl ?_ (fun u hu => ?_) ?_ fun k hk => ?_
  · exact (h.nodup g n hg).2.append (nodup_singleton t) (by simpa using hnot)
  · simp [Node.addItem, hu]
  · simp [Node.addItem]
  · simp [habsent, hk.symm]

theorem removeItem {t : T} (hg : node g = some n) (howner : owner t = some g) :
    Forest (update node g (some (n.removeItem t))) (update owner t none) := by
  refine h.setItems hg rfl rfl ((h.nodup g n hg).2.filter _) (fun u hu => ?_) ?_ fun k hk => ?_
  · simp [Node.removeItem, hu]
  · simp [Node.removeItem]
  · simp [howner, hk.symm]

end Changes

end Forest

end Lib
end Asupersync
