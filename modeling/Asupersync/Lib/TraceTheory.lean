import Mathlib.Data.List.Chain
import Mathlib.Data.List.Sort

/-!
# Words up to commutation

A symmetric independence relation on letters, words that differ by swaps of
adjacent independent letters, and the layers of the Foata normal form.

**Input.**  A type of letters and a relation `indep` on it.  Two letters that are
not independent are dependent, and their order in a word matters.

**Results.**

* `swaps_of_before`: a rearrangement of a word without repetitions that keeps
  the order of all dependent letters is reached by swaps.
* `Swaps.transport`: swaps can be followed along a letter-by-letter relation.
* `Swaps.perm_assignLayers`: swaps do not change the layer of any letter.
* `pairwise_assignLayers`, `exists_dependent_below`: layers grow along dependent
  letters, and every letter above the bottom depends on one just below it.
* `exists_chain`, `length_le_of_chain`: the layer of a letter is the length of
  the longest chain of dependent letters that leads to it.
-/

namespace Asupersync.Lib.TraceTheory

open List Relation

universe u v

variable {α : Type u}

/-! ## Swaps -/

section Swaps

variable (indep : α → α → Prop)

/-- Two adjacent independent letters change places. -/
inductive Swap : List α → List α → Prop
  | swap
      (before : List α)
      (a b : α)
      (after : List α)
      (h : indep a b) :
      Swap (before ++ a :: b :: after) (before ++ b :: a :: after)

/-- Finitely many swaps. -/
def Swaps : List α → List α → Prop := ReflTransGen (Swap indep)

variable {indep}

theorem Swaps.refl (w : List α) : Swaps indep w w := ReflTransGen.refl

variable {w w' : List α}

theorem Swaps.trans {w'' : List α} (h : Swaps indep w w') (h' : Swaps indep w' w'') :
    Swaps indep w w'' :=
  ReflTransGen.trans h h'

theorem Swaps.single (h : Swap indep w w') : Swaps indep w w' :=
  ReflTransGen.single h

theorem Swap.perm (h : Swap indep w w') : w.Perm w' := by
  cases h with
  | swap before a b after h => exact (Perm.swap b a after).append_left before

theorem Swaps.perm (h : Swaps indep w w') : w.Perm w' := by
  induction h with
  | refl => exact .refl w
  | tail _ hstep ih => exact ih.trans hstep.perm

theorem Swap.symm (hsymm : ∀ a b, indep a b → indep b a) (h : Swap indep w w') :
    Swap indep w' w := by
  cases h with
  | swap before a b after h => exact .swap before b a after (hsymm a b h)

theorem Swaps.symm (hsymm : ∀ a b, indep a b → indep b a) (h : Swaps indep w w') :
    Swaps indep w' w := by
  induction h with
  | refl => exact .refl w
  | tail _ hstep ih => exact (Swaps.single (hstep.symm hsymm)).trans ih

theorem Swaps.append_left (u : List α) (h : Swaps indep w w') : Swaps indep (u ++ w) (u ++ w') := by
  refine ReflTransGen.lift (u ++ ·) ?_ _ _ h
  rintro _ _ ⟨before, a, b, after, h⟩
  show Swap indep (u ++ _) (u ++ _)
  rw [← append_assoc, ← append_assoc]
  exact .swap (u ++ before) a b after h

theorem Swaps.append_right (v : List α) (h : Swaps indep w w') :
    Swaps indep (w ++ v) (w' ++ v) := by
  refine ReflTransGen.lift (· ++ v) ?_ _ _ h
  rintro _ _ ⟨before, a, b, after, h⟩
  show Swap indep (_ ++ v) (_ ++ v)
  rw [append_assoc, append_assoc]
  exact .swap before a b (after ++ v) h

theorem Swaps.append {v v' : List α} (h : Swaps indep w w') (h' : Swaps indep v v') :
    Swaps indep (w ++ v) (w' ++ v') :=
  (h.append_right v).trans (h'.append_left w')

variable {a : α}

/-- A letter moves to the front past letters that are independent of it. -/
theorem swaps_move_front {p : List α} (q : List α) (h : ∀ x ∈ p, indep x a) :
    Swaps indep (p ++ a :: q) (a :: (p ++ q)) := by
  induction p with
  | nil => exact .refl (a :: q)
  | cons x p ih =>
    have hrest : Swaps indep (p ++ a :: q) (a :: (p ++ q)) :=
      ih (fun y hy => h y (mem_cons_of_mem x hy))
    have hfirst : Swap indep (x :: a :: (p ++ q)) (a :: x :: (p ++ q)) :=
      .swap [] x a (p ++ q) (h x mem_cons_self)
    exact (hrest.append_left [x]).trans (.single hfirst)

/-- One letter occurs in a word before another one. -/
def Before (w : List α) (a b : α) : Prop := [a, b].Sublist w

variable {b : α}

theorem before_append {p q : List α} (ha : a ∈ p) (hb : b ∈ q) : Before (p ++ q) a b :=
  (singleton_sublist.mpr ha).append (singleton_sublist.mpr hb)

theorem Before.mono (h : Before w a b) (hsub : w.Sublist w') : Before w' a b :=
  Sublist.trans h hsub

theorem Before.tail {c : α} (h : Before (c :: w) a b) (hne : a ≠ c) : Before w a b := by
  cases h with
  | cons _ h => exact h
  | cons_cons _ _ => exact (hne rfl).elim

theorem not_before_head (hnodup : (a :: w).Nodup) : ¬ Before (a :: w) b a := by
  intro h
  have ha : a ∉ w := (nodup_cons.mp hnodup).1
  cases h with
  | cons _ h => exact ha (h.subset (by simp))
  | cons_cons _ h => exact ha (singleton_sublist.mp h)

theorem Before.trans {c : α} (hnodup : w.Nodup) (h : Before w a b) (h' : Before w b c) :
    Before w a c := by
  induction w with
  | nil => cases h
  | cons x w ih =>
    have hx : x ∉ w := (nodup_cons.mp hnodup).1
    -- `b` stands behind `a`, so it is not the first letter and `c` stands in the tail.
    have hbw : b ∈ w := by
      cases h with
      | cons _ h => exact h.subset (by simp)
      | cons_cons _ h => exact singleton_sublist.mp h
    have hbc : Before w b c := h'.tail (fun hb => hx (hb ▸ hbw))
    by_cases ha : a = x
    · subst ha
      exact (singleton_sublist.mpr (hbc.subset (by simp))).cons_cons a
    · exact (ih (nodup_cons.mp hnodup).2 (h.tail ha) hbc).cons x

theorem Before.asymm (hnodup : w.Nodup) (h : Before w a b) : ¬ Before w b a := by
  intro h'
  have hself : [a, a].Nodup := hnodup.sublist (h.trans hnodup h')
  simp at hself

theorem before_or_before (ha : a ∈ w) (hb : b ∈ w) (hne : a ≠ b) : Before w a b ∨ Before w b a := by
  obtain ⟨p, q, rfl⟩ := append_of_mem ha
  rcases mem_append.mp hb with hp | hq
  · exact .inr (before_append hp mem_cons_self)
  · have hb' : b ∈ q := mem_of_ne_of_mem (Ne.symm hne) hq
    exact .inl ((before_append (mem_singleton.mpr rfl) hb').mono
      (sublist_append_right p ([a] ++ q)))

theorem Before.exists_lt (h : Before w a b) :
    ∃ i j : Nat, i < j ∧ w[i]? = some a ∧ w[j]? = some b := by
  induction w with
  | nil => cases h
  | cons x w ih =>
    cases h with
    | cons _ h =>
      obtain ⟨i, j, hij, hi, hj⟩ := ih h
      exact ⟨i + 1, j + 1, by omega, by simpa using hi, by simpa using hj⟩
    | cons_cons _ h =>
      obtain ⟨j, hj⟩ := mem_iff_getElem?.mp (singleton_sublist.mp h)
      exact ⟨0, j + 1, by omega, rfl, by simpa using hj⟩

/-- A rearrangement that keeps the order of dependent letters is reached by swaps. -/
theorem swaps_of_before (hnodup : w.Nodup) (hperm : w.Perm w')
    (h : ∀ a b, ¬ indep a b → Before w a b → Before w' a b) : Swaps indep w w' := by
  induction w' generalizing w with
  | nil =>
    rw [hperm.eq_nil]
    exact .refl []
  | cons a w' ih =>
    have hnodup' : (a :: w').Nodup := hperm.nodup hnodup
    obtain ⟨p, q, rfl⟩ := append_of_mem (hperm.mem_iff.mpr mem_cons_self)
    have hindep : ∀ x ∈ p, indep x a := by
      intro x hx
      by_contra hdep
      exact not_before_head hnodup' (h x a hdep (before_append hx mem_cons_self))
    have hrest : (p ++ q).Perm w' := (perm_middle.symm.trans hperm).cons_inv
    have hsub : (p ++ q).Sublist (p ++ a :: q) :=
      (Sublist.refl p).append (sublist_cons_self a q)
    have hkeep : ∀ b c, ¬ indep b c → Before (p ++ q) b c → Before w' b c := by
      intro b c hdep hbc
      refine (h b c hdep (hbc.mono hsub)).tail ?_
      rintro rfl
      exact (nodup_cons.mp hnodup').1 (hrest.subset (hbc.subset (by simp)))
    exact (swaps_move_front q hindep).trans ((ih (hnodup.sublist hsub) hrest hkeep).append_left [a])

/-! ## Words that correspond letter by letter -/

variable {β : Type v} {indep' : β → β → Prop} {R : α → β → Prop} {apart : α → α → Prop}

theorem forall₂_append_cons_cons {p q : List β} {a b : β} (h : Forall₂ R w (p ++ a :: b :: q)) :
    ∃ p' a' b' q', w = p' ++ a' :: b' :: q' ∧ Forall₂ R p' p ∧ R a' a ∧ R b' b ∧
      Forall₂ R q' q := by
  have hp := forall₂_take_append w p (a :: b :: q) h
  have hrest := forall₂_drop_append w p (a :: b :: q) h
  obtain ⟨a', rest, ha, hrest', hdrop⟩ := forall₂_cons_right_iff.mp hrest
  obtain ⟨b', q', hb, hq, rfl⟩ := forall₂_cons_right_iff.mp hrest'
  refine ⟨w.take p.length, a', b', q', ?_, hp, ha, hb, hq⟩
  rw [← hdrop, take_append_drop]

/-- Swaps of a word are followed by swaps of a word that corresponds to it, as long as
independence carries over at letters that stand apart. -/
theorem Swaps.transport (hapart : ∀ a b, apart a b → apart b a)
    (hindep : ∀ a b a' b', apart a b → R a a' → R b b' → indep' a' b' → indep a b) {v v' : List β}
    (h : Swaps indep' v v') (hw : Forall₂ R w v) (hpairwise : w.Pairwise apart) :
    ∃ w', Swaps indep w w' ∧ Forall₂ R w' v' := by
  induction h with
  | refl => exact ⟨w, .refl w, hw⟩
  | tail _ hstep ih =>
    obtain ⟨w', hswaps, hw'⟩ := ih
    have hpairwise' : w'.Pairwise apart :=
      (hswaps.perm.pairwise_iff (fun {a b} => hapart a b)).mp hpairwise
    cases hstep with
    | swap before a b after h =>
      obtain ⟨p, a', b', q, rfl, hp, ha, hb, hq⟩ := forall₂_append_cons_cons hw'
      have hab : apart a' b' :=
        (pairwise_cons.mp (pairwise_append.mp hpairwise').2.1).1 b' (by simp)
      refine ⟨p ++ b' :: a' :: q, ?_, rel_append hp (.cons hb (.cons ha hq))⟩
      exact hswaps.trans (.single (.swap p a' b' q (hindep a' b' a b hab ha hb h)))

end Swaps

/-! ## Layers -/

section Layers

variable (indep : α → α → Prop) [DecidableRel indep]

/-- The layer above all letters of `before` that the next letter depends on. -/
def nextLayer (before : List (α × Nat)) (a : α) : Nat :=
  before.foldl (fun layer p => if indep p.1 a then layer else max layer (p.2 + 1)) 0

/-- The letters of a word with their layers, from the left. -/
def assignLayers (w : List α) : List (α × Nat) :=
  w.foldl (fun before a => before ++ [(a, nextLayer indep before a)]) []

variable {indep}

theorem assignLayers_snoc (w : List α) (a : α) :
    assignLayers indep (w ++ [a]) =
      assignLayers indep w ++ [(a, nextLayer indep (assignLayers indep w) a)] := by
  unfold assignLayers
  rw [foldl_append]
  rfl

@[simp]
theorem map_fst_assignLayers (w : List α) : (assignLayers indep w).map Prod.fst = w := by
  induction w using reverseRecOn with
  | nil => rfl
  | append_singleton w a ih =>
    rw [assignLayers_snoc, map_append, ih]
    rfl

@[simp]
theorem length_assignLayers (w : List α) : (assignLayers indep w).length = w.length := by
  rw [← length_map Prod.fst, map_fst_assignLayers]

theorem nextLayer_snoc (before : List (α × Nat)) (p : α × Nat) (a : α) :
    nextLayer indep (before ++ [p]) a = if indep p.1 a then nextLayer indep before a
      else max (nextLayer indep before a) (p.2 + 1) := by
  unfold nextLayer
  rw [foldl_append]
  rfl

variable {before : List (α × Nat)} {a : α}

theorem lt_nextLayer {p : α × Nat} (hp : p ∈ before) (hdep : ¬ indep p.1 a) :
    p.2 < nextLayer indep before a := by
  induction before using reverseRecOn with
  | nil => cases hp
  | append_singleton before q ih =>
    rw [nextLayer_snoc]
    rcases mem_append.mp hp with hold | hlast
    · have hlt := ih hold
      split <;> omega
    · rw [mem_singleton.mp hlast] at hdep ⊢
      rw [if_neg hdep]
      omega

variable {k : Nat}

/-- Above the bottom layer, some letter just below forces the layer. -/
theorem exists_dependent_of_nextLayer (h : nextLayer indep before a = k + 1) :
    ∃ p ∈ before, ¬ indep p.1 a ∧ p.2 = k := by
  induction before using reverseRecOn with
  | nil => cases h
  | append_singleton before q ih =>
    rw [nextLayer_snoc] at h
    split_ifs at h with hq
    · obtain ⟨p, hp, hdep⟩ := ih h
      exact ⟨p, mem_append_left _ hp, hdep⟩
    · rcases Nat.le_total (nextLayer indep before a) (q.2 + 1) with hle | hle
      · exact ⟨q, by simp, hq, by omega⟩
      · rw [max_eq_left hle] at h
        obtain ⟨p, hp, hdep⟩ := ih h
        exact ⟨p, mem_append_left _ hp, hdep⟩

/-- Layers grow along dependent letters. -/
theorem pairwise_assignLayers (w : List α) :
    (assignLayers indep w).Pairwise (fun p q => ¬ indep p.1 q.1 → p.2 < q.2) := by
  induction w using reverseRecOn with
  | nil => exact .nil
  | append_singleton w a ih =>
    rw [assignLayers_snoc]
    refine pairwise_append.mpr ⟨ih, pairwise_singleton _ _, ?_⟩
    intro p hp q hq hdep
    rw [mem_singleton.mp hq] at hdep ⊢
    exact lt_nextLayer hp hdep

variable {w w' : List α}

theorem exists_dependent_below (h : (a, k + 1) ∈ assignLayers indep w) :
    ∃ b, (b, k) ∈ assignLayers indep w ∧ ¬ indep b a := by
  induction w using reverseRecOn with
  | nil => cases h
  | append_singleton w x ih =>
    rw [assignLayers_snoc] at h ⊢
    rcases mem_append.mp h with hold | hlast
    · obtain ⟨b, hb, hdep⟩ := ih hold
      exact ⟨b, mem_append_left _ hb, hdep⟩
    · obtain ⟨rfl, hk⟩ := Prod.mk.inj (mem_singleton.mp hlast)
      obtain ⟨⟨b, k'⟩, hp, hdep, rfl⟩ := exists_dependent_of_nextLayer hk.symm
      exact ⟨b, mem_append_left _ hp, hdep⟩

/-! ## Layers under swaps -/

theorem perm_foldl_assign {before' : List (α × Nat)} (h : before.Perm before') (w : List α) :
    (w.foldl (fun before a => before ++ [(a, nextLayer indep before a)]) before).Perm
      (w.foldl (fun before a => before ++ [(a, nextLayer indep before a)]) before') := by
  induction w generalizing before before' with
  | nil => exact h
  | cons a w ih =>
    have hlayer : nextLayer indep before a = nextLayer indep before' a := by
      refine h.foldl_eq' (fun p _ q _ layer => ?_) 0
      split <;> split <;> omega
    simp only [foldl_cons, hlayer]
    exact ih (h.append_right _)

theorem Swap.perm_assignLayers (hsymm : ∀ a b, indep a b → indep b a)
    (h : Swap indep w w') : (assignLayers indep w).Perm (assignLayers indep w') := by
  cases h with
  | swap before a b after h =>
    have hsplit (x y : α) : assignLayers indep (before ++ x :: y :: after) =
        after.foldl (fun before a => before ++ [(a, nextLayer indep before a)])
          (assignLayers indep (before ++ [x] ++ [y])) := by
      unfold assignLayers
      simp
    rw [hsplit, hsplit]
    refine perm_foldl_assign ?_ after
    simp only [assignLayers_snoc, nextLayer_snoc, if_pos h, if_pos (hsymm a b h)]
    rw [append_assoc, append_assoc]
    exact (Perm.swap _ _ []).append_left _

/-- Swaps do not change the layer of any letter. -/
theorem Swaps.perm_assignLayers (hsymm : ∀ a b, indep a b → indep b a)
    (h : Swaps indep w w') : (assignLayers indep w).Perm (assignLayers indep w') := by
  induction h with
  | refl => exact .refl _
  | tail _ hstep ih => exact ih.trans (hstep.perm_assignLayers hsymm)

/-! ## Layers of corresponding words -/

section Corresponding

variable {β : Type v} {indep' : β → β → Prop} [DecidableRel indep'] {R : α → β → Prop}
variable {apart : α → α → Prop} {apart' : β → β → Prop}

variable (hindep : ∀ a b a' b', apart a b → apart' a' b' → R a a' → R b b' → (indep a b ↔ indep' a' b'))
  {before : List (α × Nat)} {before' : List (β × Nat)}

include hindep

theorem nextLayer_congr {a : α} {a' : β} (ha : R a a')
    (h : Forall₂ (fun p q => R p.1 q.1 ∧ p.2 = q.2) before before')
    (hbefore : ∀ p ∈ before, apart p.1 a) (hbefore' : ∀ q ∈ before', apart' q.1 a') :
    nextLayer indep before a = nextLayer indep' before' a' := by
  unfold nextLayer
  generalize 0 = layer
  induction h generalizing layer with
  | nil => rfl
  | @cons p q before before' hpq _ ih =>
    have hiff : indep p.1 a ↔ indep' q.1 a' :=
      hindep p.1 a q.1 a' (hbefore p mem_cons_self) (hbefore' q mem_cons_self) hpq.1 ha
    simp only [foldl_cons, hiff, hpq.2]
    exact ih (fun p hp => hbefore p (mem_cons_of_mem _ hp))
      (fun q hq => hbefore' q (mem_cons_of_mem _ hq)) _

theorem forall₂_foldl_assign {w : List α} {w' : List β}
    (hbefore : Forall₂ (fun p q => R p.1 q.1 ∧ p.2 = q.2) before before')
    (h : Forall₂ R w w') (hw : (before.map Prod.fst ++ w).Pairwise apart)
    (hw' : (before'.map Prod.fst ++ w').Pairwise apart') :
    Forall₂ (fun p q => R p.1 q.1 ∧ p.2 = q.2)
      (w.foldl (fun before a => before ++ [(a, nextLayer indep before a)]) before)
      (w'.foldl (fun before a => before ++ [(a, nextLayer indep' before a)]) before') := by
  induction h generalizing before before' with
  | nil => exact hbefore
  | @cons a a' w w' ha _ ih =>
    have hnext : nextLayer indep before a = nextLayer indep' before' a' := by
      refine nextLayer_congr hindep ha hbefore ?_ ?_
      · intro p hp
        exact (pairwise_append.mp hw).2.2 p.1 (mem_map_of_mem hp) a mem_cons_self
      · intro q hq
        exact (pairwise_append.mp hw').2.2 q.1 (mem_map_of_mem hq) a' mem_cons_self
    refine ih (rel_append hbefore (.cons ⟨ha, hnext⟩ .nil)) ?_ ?_
    · simpa using hw
    · simpa using hw'

end Corresponding

/-! ## Chains of dependent letters -/

/-- A chain leads to every letter, one letter longer than its layer. -/
theorem exists_chain (h : (a, k) ∈ assignLayers indep w) :
    ∃ chain : List α, (chain ++ [a]).Sublist w ∧
      (chain ++ [a]).IsChain (fun x y => ¬ indep x y) ∧ chain.length = k := by
  induction w using reverseRecOn generalizing a k with
  | nil => cases h
  | append_singleton w x ih =>
    rw [assignLayers_snoc] at h
    rcases mem_append.mp h with hold | hlast
    · obtain ⟨chain, hsub, hchain⟩ := ih hold
      exact ⟨chain, hsub.trans (sublist_append_left w [x]), hchain⟩
    · obtain ⟨rfl, hk⟩ := Prod.mk.inj (mem_singleton.mp hlast)
      cases k with
      | zero => exact ⟨[], sublist_append_right w [a], .singleton a, rfl⟩
      | succ k =>
        obtain ⟨⟨b, k'⟩, hb, hdep, rfl⟩ := exists_dependent_of_nextLayer hk.symm
        obtain ⟨chain, hsub, hchain, hlength⟩ := ih hb
        refine ⟨chain ++ [b], hsub.append (Sublist.refl [a]), ?_, by simpa using hlength⟩
        exact isChain_append.mpr ⟨hchain, .singleton a, by simpa using hdep⟩

/-- The layer of the last letter of a chain is at least the number of letters before it. -/
theorem length_le_of_chain {chain : List α} (hsub : (chain ++ [a]).Sublist w)
    (hchain : (chain ++ [a]).IsChain (fun x y => ¬ indep x y)) :
    ∃ k, (a, k) ∈ assignLayers indep w ∧ chain.length ≤ k := by
  induction w using reverseRecOn generalizing chain a with
  | nil => simp at hsub
  | append_singleton w x ih =>
    rw [assignLayers_snoc]
    obtain ⟨front, last, hsplit, hfront, hlast⟩ := sublist_append_iff.mp hsub
    rcases sublist_singleton.mp hlast with rfl | rfl
    · rw [append_nil] at hsplit
      obtain ⟨k, hk, hle⟩ := ih (hsplit ▸ hfront) hchain
      exact ⟨k, mem_append_left _ hk, hle⟩
    obtain ⟨rfl, hx⟩ := append_inj' hsplit rfl
    obtain rfl : a = x := by simpa using hx
    refine ⟨_, mem_append_right _ (mem_singleton.mpr rfl), ?_⟩
    -- The letter before the last one has its own chain, one shorter.
    rcases eq_nil_or_concat chain with rfl | ⟨chain', b, rfl⟩
    · exact Nat.zero_le _
    · rw [concat_eq_append] at hfront hchain ⊢
      obtain ⟨k, hk, hle⟩ := ih hfront (isChain_append.mp hchain).1
      have hdep : ¬ indep b a := by
        simpa using (isChain_append.mp hchain).2.2
      have hlt := lt_nextLayer hk hdep
      rw [length_append]
      exact Nat.lt_of_le_of_lt hle hlt

end Layers

/-! ## Concatenated layers -/

section Concatenation

/-- Collecting the entries by number only rearranges them. -/
theorem perm_flatten_layers (l : List (α × Nat)) (n : Nat) :
    ((range n).map (fun k => l.filter (fun p => p.2 = k))).flatten.Perm
      (l.filter (fun p => p.2 < n)) := by
  induction n with
  | zero => simp
  | succ n ih =>
    rw [range_succ, map_append, flatten_append]
    have hbelow : l.filter (fun p => p.2 < n) =
        (l.filter (fun p => p.2 < n + 1)).filter (fun p => p.2 < n) := by
      rw [filter_filter]
      refine filter_congr ?_
      intro p _
      rw [← Bool.decide_and, decide_eq_decide]
      omega
    have hat : l.filter (fun p => p.2 = n) =
        (l.filter (fun p => p.2 < n + 1)).filter (fun p => !decide (p.2 < n)) := by
      rw [filter_filter]
      refine filter_congr ?_
      intro p _
      rw [← decide_not, ← Bool.decide_and, decide_eq_decide]
      omega
    rw [hbelow] at ih
    simp only [map_cons, map_nil, flatten_cons, flatten_nil, append_nil]
    rw [hat]
    exact (ih.append_right _).trans (filter_append_perm _ _)

/-- The letters of a lower layer stand before those of a higher one. -/
theorem before_flatten {f : Nat → List α} {n i j : Nat} {a b : α} (ha : a ∈ f i) (hb : b ∈ f j)
    (hij : i < j) (hj : j < n) : Before ((range n).map f).flatten a b := by
  induction n with
  | zero => omega
  | succ n ih =>
    rw [range_succ, map_append, flatten_append]
    by_cases hlast : j = n
    · subst hlast
      exact before_append (mem_flatten.mpr ⟨_, mem_map_of_mem (mem_range.mpr hij), ha⟩)
        (by simpa using hb)
    · exact (ih (by omega)).mono (sublist_append_left _ _)

end Concatenation

end Asupersync.Lib.TraceTheory
