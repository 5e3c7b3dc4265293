import Asupersync.Lib.TransitionSystem
import Mathlib.Data.List.Lex
import Mathlib.Data.Set.Finite.Basic
import Mathlib.Order.WellFounded

/-!
# Orders that respect dependencies

A finite set of points depends on one another by a relation: `dep x y` says that
`x` needs `y`.  A list respects the dependencies when everything a point needs
stands before it.

A list that is built by always taking the first free point, for some way of
comparing points, is the least of all lists that respect the dependencies, and
the points that it never reaches are exactly those that need a cycle.
-/

namespace Asupersync.Lib.DependencyOrder

open List

universe u

variable {α : Type u} {dep before : α → α → Prop} {points : Finset α} {l l' : List α} {x y : α}

/-- Everything that `x` needs is among `done`. -/
def Free (dep : α → α → Prop) (done : List α) (x : α) : Prop := ∀ y, dep x y → y ∈ done

/-- Every point of the list stands after everything it needs. -/
def Respects (dep : α → α → Prop) (l : List α) : Prop :=
  ∀ pre x post, l = pre ++ x :: post → Free dep pre x

/-- The point `x` needs itself in the end, or needs such a point. -/
def NeedsCycle (dep : α → α → Prop) (x : α) : Prop :=
  ∃ y, Relation.ReflTransGen dep x y ∧ Relation.TransGen dep y y

/-- After `done`, the point `x` is the first of the free points that are left. -/
structure Picks (dep before : α → α → Prop) (points : Finset α) (done : List α) (x : α) : Prop where
  mem : x ∈ points
  fresh : x ∉ done
  free : Free dep done x
  first : ∀ y ∈ points, y ∉ done → Free dep done y → y ≠ x → before x y

/-- The list takes the first free point at every place. -/
inductive Greedy (dep before : α → α → Prop) (points : Finset α) : List α → Prop
  | nil : Greedy dep before points []
  | snoc {done : List α} {x : α} : Greedy dep before points done →
      Picks dep before points done x → Greedy dep before points (done ++ [x])

namespace Greedy

variable (h : Greedy dep before points l)

include h

/-- What is said of a greedy list holds at every place of it. -/
theorem picks : ∀ pre x post, l = pre ++ x :: post → Picks dep before points pre x := by
  induction h with
  | nil =>
    intro pre x post heq
    simp at heq
  | snoc _ hpick ih =>
    intro pre x post heq
    rcases snoc_cases heq with ⟨rfl, rfl, -⟩ | ⟨post', -, heq⟩
    · exact hpick
    · exact ih pre x post' heq

theorem respects : Respects dep l := fun pre x post heq => (h.picks pre x post heq).free

theorem nodup : l.Nodup := by
  induction h with
  | nil => exact nodup_nil
  | snoc _ hpick ih =>
    refine nodup_append.mpr ⟨ih, nodup_singleton _, ?_⟩
    rintro a ha b hb rfl
    exact hpick.fresh (mem_singleton.mp hb ▸ ha)

theorem subset (hx : x ∈ l) : x ∈ points := by
  obtain ⟨pre, post, heq⟩ := append_of_mem hx
  exact (h.picks pre x post heq).mem

theorem length_le : l.length ≤ points.card := by
  classical
  calc l.length = l.toFinset.card := (toFinset_card_of_nodup h.nodup).symm
    _ ≤ points.card := Finset.card_le_card fun x hx => h.subset (mem_toFinset.mp hx)

theorem closed (hx : x ∈ l) (hxy : dep x y) : y ∈ l := by
  obtain ⟨pre, post, heq⟩ := append_of_mem hx
  rw [heq]
  exact mem_append_left _ ((h.picks pre x post heq).free y hxy)

/-- Two lists that agree on `pre`: at the first place where they differ, the
greedy one has the point that comes before. -/
theorem least_after (hl' : Respects dep l') (hperm : l'.Perm l) :
    ∀ (rest rest' pre : List α), l = pre ++ rest → l' = pre ++ rest' →
      rest' = rest ∨ Lex before rest rest' := by
  intro rest
  induction rest with
  | nil =>
    intro rest' pre heq heq'
    have hlength := hperm.length_eq
    rw [heq, heq', length_append, length_append, length_nil] at hlength
    exact .inl (length_eq_zero_iff.mp (by omega))
  | cons x rest ih =>
    intro rest' pre heq heq'
    cases rest' with
    | nil =>
      have hlength := hperm.length_eq
      rw [heq, heq', length_append, length_append, length_cons, length_nil] at hlength
      omega
    | cons y rest' =>
      have hpick := h.picks pre x rest heq
      by_cases hxy : y = x
      · subst hxy
        have htail := ih rest' (pre ++ [y]) (by rw [heq, append_cons])
          (by rw [heq', append_cons])
        rcases htail with rfl | hlex
        · exact .inl rfl
        · exact .inr (Lex.cons hlex)
      · -- the other list had only free points to choose from
        have hmem : y ∈ points := by
          refine h.subset (hperm.subset ?_)
          simp [heq']
        have hfresh : y ∉ pre := by
          have hnodup := hperm.nodup_iff.mpr h.nodup
          rw [heq'] at hnodup
          exact fun hy => (nodup_append.mp hnodup).2.2 y hy y mem_cons_self rfl
        have hfree : Free dep pre y := hl' pre y rest' heq'
        exact .inr (Lex.rel (hpick.first y hmem hfresh hfree hxy))

/-- A greedy list is the least of the lists of its points that respect the dependencies. -/
theorem least (hl' : Respects dep l') (hperm : l'.Perm l) : l' = l ∨ Lex before l l' :=
  h.least_after hl' hperm l l' [] rfl rfl

/-- In a greedy list a point has a later place than what it needs. -/
theorem idxOf_lt_of_dep [DecidableEq α] (hx : x ∈ l) (hxy : dep x y) : l.idxOf y < l.idxOf x := by
  obtain ⟨pre, post, heq⟩ := append_of_mem hx
  have hpick := h.picks pre x post heq
  have hy : y ∈ pre := hpick.free y hxy
  rw [heq, idxOf_append_of_mem hy, idxOf_append_of_notMem hpick.fresh,
    idxOf_cons_self, Nat.add_zero]
  exact idxOf_lt_length_of_mem hy

theorem idxOf_lt [DecidableEq α] (hx : x ∈ l) (hxy : Relation.TransGen dep x y) :
    y ∈ l ∧ l.idxOf y < l.idxOf x := by
  induction hxy with
  | single hdep => exact ⟨h.closed hx hdep, h.idxOf_lt_of_dep hx hdep⟩
  | tail _ hdep ih =>
    obtain ⟨hmem, hlt⟩ := ih
    exact ⟨h.closed hmem hdep, (h.idxOf_lt_of_dep hmem hdep).trans hlt⟩

/-- No point of a greedy list needs a cycle. -/
theorem not_needsCycle (hx : x ∈ l) : ¬NeedsCycle dep x := by
  classical
  rintro ⟨y, hxy, hcycle⟩
  have hy : y ∈ l := by
    rcases Relation.reflTransGen_iff_eq_or_transGen.mp hxy with rfl | hxy
    · exact hx
    · exact (h.idxOf_lt hx hxy).1
  exact absurd (h.idxOf_lt hy hcycle).2 (lt_irrefl _)

end Greedy

/-- Where every point of a finite set needs a point of the set, each needs a cycle. -/
theorem needsCycle_of_stuck {stuck : Finset α} (hstuck : ∀ x ∈ stuck, ∃ y ∈ stuck, dep x y)
    (hx : x ∈ stuck) : NeedsCycle dep x := by
  by_contra hcycle
  -- the points that `x` needs inside the set, ordered by need
  let below : {y // y ∈ stuck ∧ Relation.ReflTransGen dep x y} →
      {y // y ∈ stuck ∧ Relation.ReflTransGen dep x y} → Prop :=
    fun a b => Relation.TransGen dep b.1 a.1
  have hfinite : Finite {y // y ∈ stuck ∧ Relation.ReflTransGen dep x y} :=
    (stuck.finite_toSet.subset fun _ hy => hy.1 :
      {y | y ∈ stuck ∧ Relation.ReflTransGen dep x y}.Finite).to_subtype
  have hirrefl : Std.Irrefl below := ⟨fun a ha => hcycle ⟨a.1, a.2.2, ha⟩⟩
  have hwf : WellFounded below := Finite.wellFounded_of_trans_of_irrefl below
  obtain ⟨⟨m, hm, hxm⟩, -, hmin⟩ := hwf.has_min Set.univ ⟨⟨x, hx, .refl⟩, trivial⟩
  obtain ⟨z, hz, hdep⟩ := hstuck m hm
  exact hmin ⟨z, hz, hxm.tail hdep⟩ trivial (Relation.TransGen.single hdep)

/-- A greedy list that has no free point left has reached every point that needs
no cycle. -/
theorem Greedy.mem_iff_of_no_free (h : Greedy dep before points l)
    (hclosed : ∀ x ∈ points, ∀ y, dep x y → y ∈ points)
    (hdone : ∀ x ∈ points, x ∉ l → ¬Free dep l x) (hx : x ∈ points) :
    x ∈ l ↔ ¬NeedsCycle dep x := by
  classical
  refine ⟨h.not_needsCycle, fun hcycle => ?_⟩
  by_contra hnot
  have hstuck : x ∈ points.filter (· ∉ l) := Finset.mem_filter.mpr ⟨hx, hnot⟩
  refine hcycle (needsCycle_of_stuck ?_ hstuck)
  intro z hz
  obtain ⟨hz, hzl⟩ := Finset.mem_filter.mp hz
  obtain ⟨y, hzy, hyl⟩ : ∃ y, dep z y ∧ y ∉ l := by
    simpa [Free] using hdone z hz hzl
  exact ⟨y, Finset.mem_filter.mpr ⟨hclosed z hz y hzy, hyl⟩, hzy⟩

end Asupersync.Lib.DependencyOrder
