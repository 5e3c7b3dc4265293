import Mathlib.Data.List.Basic
import Mathlib.Order.WellFounded

/-!
# Folding a graph through an algebra

A graph gives every point a label and a list of successors.  An algebra says how
to combine a label with the values of the successors; a point folds to a value
when it and everything below it can be combined, which is possible exactly when
no infinite path starts there.

A fold depends only on what lies below a point, so it survives every change of
the graph that keeps the part below, and every renaming of points that is
respected by the labels and the successors (`Folds.transport`).
-/

namespace Asupersync.Lib.GraphFold

variable {ι L A B : Type*}

/-- The label and the successors of every point. -/
abbrev Graph (ι L : Type*) := ι → L × List ι

/-- The point `c` is a successor of `i`. -/
def Child (g : Graph ι L) (c i : ι) : Prop := c ∈ (g i).2

/-- The point `j` lies below `i`, or is `i`. -/
def Reaches (g : Graph ι L) (i j : ι) : Prop := Relation.ReflTransGen (fun a b => Child g b a) i j

/-- The point `i` and everything below it combine to a value. -/
inductive Folds (g : Graph ι L) (alg : L → List A → A) : ι → A → Prop
  | node (i : ι) (value : ι → A)
      (below : ∀ c, Child g c i → Folds g alg c (value c)) :
      Folds g alg i (alg (g i).1 ((g i).2.map value))

section Basic

variable {g g' : Graph ι L} {alg : L → List A → A} {i c : ι} {l : L} {cs : List ι} {a b : A}

theorem Folds.intro (hi : g i = (l, cs)) (value : ι → A)
    (below : ∀ c ∈ cs, Folds g alg c (value c)) : Folds g alg i (alg l (cs.map value)) := by
  have hbelow : ∀ c, Child g c i → Folds g alg c (value c) := by
    intro c hc
    rw [Child, hi] at hc
    exact below c hc
  have hnode := Folds.node i value hbelow
  rwa [hi] at hnode

theorem Folds.elim (hi : g i = (l, cs)) (h : Folds g alg i a) :
    ∃ value : ι → A, (∀ c ∈ cs, Folds g alg c (value c)) ∧ a = alg l (cs.map value) := by
  cases h with
  | node _ value below =>
    refine ⟨value, fun c hc => below c ?_, by rw [hi]⟩
    rw [Child, hi]
    exact hc

/-- A point folds to at most one value. -/
theorem Folds.unique (ha : Folds g alg i a) (hb : Folds g alg i b) : a = b := by
  induction ha generalizing b with
  | node i value below ih =>
    obtain ⟨value', below', rfl⟩ := hb.elim rfl
    exact congrArg (alg (g i).1) (List.map_congr_left fun c hc => ih c hc (below' c hc))

/-- A point that folds starts no infinite path. -/
theorem Folds.acc (h : Folds g alg i a) : Acc (Child g) i := by
  induction h with
  | node i value below ih => exact Acc.intro i ih

/-- The value a point folds to, where it has one. -/
noncomputable def foldValue [Nonempty A] (g : Graph ι L) (alg : L → List A → A) (i : ι) : A :=
  Classical.epsilon fun a => Folds g alg i a

theorem Folds.foldValue_eq [Nonempty A] (h : Folds g alg i a) : foldValue g alg i = a :=
  (Classical.epsilon_spec (p := fun a => Folds g alg i a) ⟨a, h⟩).unique h

/-- A point that starts no infinite path folds through every algebra. -/
theorem folds_of_acc [Nonempty A] (alg : L → List A → A) (h : Acc (Child g) i) :
    Folds g alg i (foldValue g alg i) := by
  induction h with
  | intro i _ ih =>
    have hnode := Folds.node (g := g) i (foldValue g alg) ih
    rwa [hnode.foldValue_eq]

theorem foldValue_of_acc [Nonempty A] (alg : L → List A → A) (hi : g i = (l, cs))
    (h : Acc (Child g) i) : foldValue g alg i = alg l (cs.map (foldValue g alg)) := by
  refine (Folds.intro hi (foldValue g alg) fun c hc => folds_of_acc alg (h.inv ?_)).foldValue_eq
  rw [Child, hi]
  exact hc

/-- Folding through the algebra of one value only asks that no infinite path starts. -/
theorem acc_iff_folds_unit : Acc (Child g) i ↔ Folds g (fun _ _ => ()) i () :=
  ⟨fun h => folds_of_acc (A := Unit) _ h, Folds.acc⟩

theorem Reaches.refl (i : ι) : Reaches g i i := Relation.ReflTransGen.refl

theorem Reaches.of_child (h : Child g c i) : Reaches g i c := Relation.ReflTransGen.single h

theorem Reaches.trans {j k : ι} (hij : Reaches g i j) (hjk : Reaches g j k) : Reaches g i k :=
  Relation.ReflTransGen.trans hij hjk

theorem acc_of_reaches {j : ι} (h : Acc (Child g) i) (hij : Reaches g i j) : Acc (Child g) j := by
  induction hij with
  | refl => exact h
  | tail _ hchild ih => exact ih.inv hchild

/-- Where no infinite path starts, no path comes back. -/
theorem not_transGen_self (h : Acc (Child g) i) :
    ¬ Relation.TransGen (fun a b => Child g b a) i i := by
  have hirrefl : ¬ Relation.TransGen (Child g) i i := by
    induction h.transGen with
    | intro i _ ih => exact fun hself => ih i hself h hself
  exact fun hback => hirrefl (Relation.transGen_swap.mp hback)

theorem not_reaches_of_child (h : Acc (Child g) i) (hc : Child g c i) : ¬ Reaches g c i :=
  fun hback => not_transGen_self h (Relation.TransGen.head' hc hback)

end Basic

section Transport

variable {g g' : Graph ι L} {alg : L → List A → A} {S : ι → Prop} {i : ι} {a : A}

/-- A fold is carried along a renaming: point by point, either the labels and the
successors correspond, or the fold at that point is known to be carried. -/
theorem Folds.transport (rename : ι → ι) (closed : ∀ i, S i → ∀ c, Child g c i → S c)
    (step : ∀ i, S i → g' (rename i) = ((g i).1, (g i).2.map rename) ∨
      ∀ a, Folds g alg i a → Folds g' alg (rename i) a) (h : Folds g alg i a) (hi : S i) :
    Folds g' alg (rename i) a := by
  induction h with
  | node i value below ih =>
    have hnode := Folds.node i value below
    rcases step i hi with hsame | hcarried
    · have : Nonempty A := ⟨value i⟩
      have hchildren : ∀ c ∈ (g i).2, foldValue g' alg (rename c) = value c :=
        fun c hc => (ih c hc (closed i hi c hc)).foldValue_eq
      have hfold : Folds g' alg (rename i)
          (alg (g i).1 (((g i).2.map rename).map (foldValue g' alg))) := by
        refine Folds.intro hsame _ fun c hc => ?_
        obtain ⟨d, hd, rfl⟩ := List.mem_map.mp hc
        rw [hchildren d hd]
        exact ih d hd (closed i hi d hd)
      have hvalues : ((g i).2.map rename).map (foldValue g' alg) = (g i).2.map value := by
        rw [List.map_map]
        exact List.map_congr_left hchildren
      rwa [hvalues] at hfold
    · exact hcarried _ hnode

/-- Two graphs that agree on a set closed under successors fold alike there. -/
theorem Folds.frame (closed : ∀ i, S i → ∀ c, Child g c i → S c) (same : ∀ i, S i → g' i = g i)
    (h : Folds g alg i a) (hi : S i) : Folds g' alg i a := by
  refine h.transport id closed (fun i hi => .inl ?_) hi
  rw [List.map_id]
  exact same i hi

end Transport

end Asupersync.Lib.GraphFold
