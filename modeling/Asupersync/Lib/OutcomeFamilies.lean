import Mathlib.Data.List.Perm.Basic
import Mathlib.Data.Set.NAry

/-!
# Families of outcome sets

What a concurrent computation may deliver is a family of sets: one set for each way
it can go.  Computations that all have to finish deliver one set of each of them
together (`joinAll`); of computations that race, one delivers (`raceAll`).

Both operations are associative and commutative, and joining distributes over
racing.
-/

namespace Asupersync.Lib.OutcomeFamilies

open List

variable {α β : Type*}

/-- One set of each of two families, together. -/
def both (f g : Set (Set α)) : Set (Set α) := Set.image2 (· ∪ ·) f g

/-- One set of each of the families, together. -/
def joinAll (fs : List (Set (Set α))) : Set (Set α) := fs.foldr both {∅}

/-- The sets of all the families. -/
def raceAll (fs : List (Set (Set α))) : Set (Set α) := {o | ∃ f ∈ fs, o ∈ f}

theorem both_assoc (f g h : Set (Set α)) : both (both f g) h = both f (both g h) :=
  Set.image2_assoc fun a b c => Set.union_assoc a b c

theorem both_comm (f g : Set (Set α)) : both f g = both g f :=
  Set.image2_comm fun a b => Set.union_comm a b

theorem both_left_comm (f g h : Set (Set α)) : both f (both g h) = both g (both f h) := by
  rw [← both_assoc, both_comm f g, both_assoc]

theorem empty_both (f : Set (Set α)) : both {∅} f = f := by
  simp [both, Set.image2_singleton_left]

theorem both_empty (f : Set (Set α)) : both f {∅} = f := by
  rw [both_comm, empty_both]

@[simp] theorem joinAll_nil : joinAll ([] : List (Set (Set α))) = {∅} := rfl

@[simp] theorem joinAll_cons (f : Set (Set α)) (fs : List (Set (Set α))) :
    joinAll (f :: fs) = both f (joinAll fs) := rfl

theorem joinAll_singleton (f : Set (Set α)) : joinAll [f] = f := both_empty f

theorem joinAll_append (fs gs : List (Set (Set α))) :
    joinAll (fs ++ gs) = both (joinAll fs) (joinAll gs) := by
  induction fs with
  | nil => rw [nil_append, joinAll_nil, empty_both]
  | cons f fs ih => rw [cons_append, joinAll_cons, joinAll_cons, ih, both_assoc]

theorem joinAll_perm {fs gs : List (Set (Set α))} (h : fs.Perm gs) : joinAll fs = joinAll gs := by
  induction h with
  | nil => rfl
  | cons f _ ih => rw [joinAll_cons, joinAll_cons, ih]
  | swap f g fs =>
    exact both_left_comm g f (joinAll fs)
  | trans _ _ ih₁ ih₂ => exact ih₁.trans ih₂

/-- A join of joins is one join. -/
theorem joinAll_flatMap (xs : List β) (groups : β → List (Set (Set α))) :
    joinAll (xs.flatMap groups) = joinAll (xs.map fun x => joinAll (groups x)) := by
  induction xs with
  | nil => rfl
  | cons x xs ih => rw [flatMap_cons, joinAll_append, ih, map_cons, joinAll_cons]

@[simp] theorem mem_raceAll {fs : List (Set (Set α))} {o : Set α} :
    o ∈ raceAll fs ↔ ∃ f ∈ fs, o ∈ f := Iff.rfl

theorem raceAll_singleton (f : Set (Set α)) : raceAll [f] = f := by
  ext o
  simp

theorem raceAll_perm {fs gs : List (Set (Set α))} (h : fs.Perm gs) : raceAll fs = raceAll gs := by
  ext o
  simp only [mem_raceAll, h.mem_iff]

/-- A race of races is one race. -/
theorem raceAll_flatMap (xs : List β) (groups : β → List (Set (Set α))) :
    raceAll (xs.flatMap groups) = raceAll (xs.map fun x => raceAll (groups x)) := by
  ext o
  simp only [mem_raceAll, mem_flatMap, mem_map]
  constructor
  · rintro ⟨f, ⟨x, hx, hf⟩, ho⟩
    exact ⟨raceAll (groups x), ⟨x, hx, rfl⟩, f, hf, ho⟩
  · rintro ⟨_, ⟨x, hx, rfl⟩, f, hf, ho⟩
    exact ⟨f, ⟨x, hx, hf⟩, ho⟩

/-- A common part of all the branches can be moved out of a race. -/
theorem both_raceAll (f : Set (Set α)) (gs : List (Set (Set α))) :
    both f (raceAll gs) = raceAll (gs.map (both f)) := by
  ext o
  simp only [both, Set.mem_image2, mem_raceAll, mem_map]
  constructor
  · rintro ⟨a, ha, b, ⟨g, hg, hb⟩, rfl⟩
    exact ⟨_, ⟨g, hg, rfl⟩, a, ha, b, hb, rfl⟩
  · rintro ⟨_, ⟨g, hg, rfl⟩, a, ha, b, hb, rfl⟩
    exact ⟨a, ha, b, ⟨g, hg, hb⟩, rfl⟩

end Asupersync.Lib.OutcomeFamilies
