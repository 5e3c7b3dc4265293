import Asupersync.Lib.Slab
import Asupersync.Lib.TransitionSystem
import Mathlib.Data.List.Perm.Subperm

/-!
# Doubly linked lists in a slab

The slots of a slab hold a value and the keys of their neighbours; the ends are
kept beside them.  Values join at either end and leave from any place, and the
keys of values that left are reused.

`Represents l es` says that `l` is a well-formed list with the entries `es`, the
key of each with its value: every slot in use is one of the entries, and its
neighbours are the entries before and after it.  Each operation is described by
what it does to the entries.
-/

namespace Asupersync.Lib

open List

universe u

/-- A value with the keys of its neighbours. -/
structure Link (α : Type u) where
  value : α
  prev : Option Nat
  next : Option Nat

structure LinkedSlab (α : Type u) where
  slots : Slab (Link α)
  head : Option Nat
  tail : Option Nat

namespace LinkedSlab

variable {α : Type u}

def empty : LinkedSlab α where
  slots := .empty
  head := none
  tail := none

def setNext (slots : Slab (Link α)) (k : Nat) (next : Option Nat) : Slab (Link α) :=
  slots.modify k fun link => { link with next := next }

def setPrev (slots : Slab (Link α)) (k : Nat) (prev : Option Nat) : Slab (Link α) :=
  slots.modify k fun link => { link with prev := prev }

def pushBack (l : LinkedSlab α) (a : α) : LinkedSlab α × Nat :=
  let key := l.slots.vacantKey
  let slots := l.slots.insert { value := a, prev := l.tail, next := none }
  match l.tail with
  | some prevTail =>
    ({ slots := setNext slots prevTail (some key), head := l.head, tail := some key }, key)
  | none => ({ slots := slots, head := some key, tail := some key }, key)

def pushFront (l : LinkedSlab α) (a : α) : LinkedSlab α × Nat :=
  let key := l.slots.vacantKey
  let slots := l.slots.insert { value := a, prev := none, next := l.head }
  match l.head with
  | some nextHead =>
    ({ slots := setPrev slots nextHead (some key), head := some key, tail := l.tail }, key)
  | none => ({ slots := slots, head := some key, tail := some key }, key)

/-- Ties the neighbours of a slot that leaves to each other. -/
def relink (l : LinkedSlab α) (prev next : Option Nat) : LinkedSlab α :=
  let l := match prev with
    | some p => { l with slots := setNext l.slots p next }
    | none => { l with head := next }
  match next with
  | some n => { l with slots := setPrev l.slots n prev }
  | none => { l with tail := prev }

/-- Takes the value out of a slot and closes the gap. -/
def unlink (l : LinkedSlab α) (k : Nat) : Option (α × LinkedSlab α) := do
  let link ← l.slots.get k
  return (link.value, { l with slots := l.slots.remove k }.relink link.prev link.next)

/-- Changes a value in its place. -/
def modifyValue (l : LinkedSlab α) (k : Nat) (f : α → α) : LinkedSlab α :=
  { l with slots := l.slots.modify k fun link => { link with value := f link.value } }

def get (l : LinkedSlab α) (k : Nat) : Option α := (l.slots.get k).map (·.value)

/-- The key at the front of a list of entries. -/
def firstKey (es : List (Nat × α)) : Option Nat := es.head?.map (·.1)

/-- The key at the end of a list of entries. -/
def lastKey (es : List (Nat × α)) : Option Nat := es.getLast?.map (·.1)

structure Represents (l : LinkedSlab α) (es : List (Nat × α)) : Prop where
  head : l.head = firstKey es
  tail : l.tail = lastKey es
  linked : ∀ xs k a ys, es = xs ++ (k, a) :: ys →
    l.slots.get k = some { value := a, prev := lastKey xs, next := firstKey ys }
  only : ∀ k, l.slots.get k ≠ none → k ∈ es.map (·.1)
  nodup : (es.map (·.1)).Nodup

section Keys

variable {xs ys es : List (Nat × α)} {k : Nat} {a : α}

@[simp] theorem firstKey_nil : firstKey ([] : List (Nat × α)) = none := rfl

@[simp] theorem firstKey_cons : firstKey ((k, a) :: ys) = some k := rfl

@[simp] theorem lastKey_concat : lastKey (xs ++ [(k, a)]) = some k := by
  simp [lastKey]

theorem firstKey_append_of_ne_nil (h : xs ≠ []) : firstKey (xs ++ ys) = firstKey xs := by
  cases xs with
  | nil => exact absurd rfl h
  | cons x xs => rfl

theorem lastKey_append_of_ne_nil (h : ys ≠ []) : lastKey (xs ++ ys) = lastKey ys := by
  rw [lastKey, lastKey, getLast?_append_of_ne_nil _ h]

theorem lastKey_cons_of_ne_nil (h : ys ≠ []) : lastKey ((k, a) :: ys) = lastKey ys := by
  rw [← singleton_append, lastKey_append_of_ne_nil h]

theorem lastKey_mem (h : lastKey xs = some k) : k ∈ xs.map (·.1) := by
  rw [lastKey, Option.map_eq_some_iff] at h
  obtain ⟨x, hx, rfl⟩ := h
  exact mem_map_of_mem (mem_of_getLast? hx)

/-- Where no key occurs twice, the last one belongs to the last entry. -/
theorem lastKey_eq_iff (h : ((xs ++ (k, a) :: ys).map (·.1)).Nodup) :
    some k = lastKey (xs ++ (k, a) :: ys) ↔ ys = [] := by
  rw [map_append, map_cons, nodup_append, nodup_cons] at h
  rcases eq_or_ne ys [] with rfl | hys
  · exact iff_of_true lastKey_concat.symm rfl
  · rw [lastKey_append_of_ne_nil (cons_ne_nil _ _), lastKey_cons_of_ne_nil hys]
    exact iff_of_false (fun heq => h.2.1.1 (lastKey_mem heq.symm)) hys

theorem firstKey_mem (h : firstKey xs = some k) : k ∈ xs.map (·.1) := by
  rw [firstKey, Option.map_eq_some_iff] at h
  obtain ⟨x, hx, rfl⟩ := h
  exact mem_map_of_mem (mem_of_head? hx)

/-- A change of the value under one key. -/
def changeAt (k : Nat) (f : α → α) (e : Nat × α) : Nat × α :=
  if e.1 = k then (e.1, f e.2) else e

theorem fst_changeAt (k : Nat) (f : α → α) (e : Nat × α) : (changeAt k f e).1 = e.1 := by
  rw [changeAt]
  split <;> rfl

theorem firstKey_map_changeAt (k : Nat) (f : α → α) :
    firstKey (es.map (changeAt k f)) = firstKey es := by
  cases es with
  | nil => rfl
  | cons e es => exact congrArg some (fst_changeAt k f e)

theorem lastKey_map_changeAt (k : Nat) (f : α → α) :
    lastKey (es.map (changeAt k f)) = lastKey es := by
  rw [lastKey, lastKey, getLast?_map, Option.map_map]
  exact congrFun (congrArg Option.map (funext (fst_changeAt k f))) _

theorem lastKey_eq_none_iff : lastKey xs = none ↔ xs = [] := by
  rw [lastKey, Option.map_eq_none_iff, getLast?_eq_none_iff]

end Keys

section Relink

variable {l : LinkedSlab α} {prev next : Option Nat}

theorem get_relink (l : LinkedSlab α) (hends : ∀ p, prev = some p → next ≠ some p) (j : Nat) :
    (l.relink prev next).slots.get j =
      if some j = prev then (l.slots.get j).map fun link => { link with next := next }
      else if some j = next then (l.slots.get j).map fun link => { link with prev := prev }
      else l.slots.get j := by
  simp only [relink]
  cases prev with
  | none => cases next <;> simp [setPrev, Slab.get_modify]
  | some p =>
    cases next with
    | none => simp [setNext, Slab.get_modify]
    | some n =>
      have hne : p ≠ n := fun heq => hends p rfl (congrArg some heq.symm)
      simp only [setNext, setPrev, Slab.get_modify, Option.some.injEq]
      by_cases hjp : j = p
      · subst hjp
        simp [hne]
      · simp [hjp]

end Relink

namespace Represents

variable {l : LinkedSlab α} {es xs ys : List (Nat × α)} {k : Nat} {a : α}

theorem empty : Represents (empty : LinkedSlab α) [] where
  head := rfl
  tail := rfl
  linked := by
    intro xs k a ys h
    simp at h
  only := by
    intro k hk
    exact absurd (Slab.get_empty k) hk
  nodup := nodup_nil

section

variable (h : Represents l es)

include h

theorem get_of_mem (hmem : (k, a) ∈ es) : l.get k = some a := by
  obtain ⟨xs, ys, rfl⟩ := append_of_mem hmem
  rw [get, h.linked xs k a ys rfl]
  rfl

theorem mem_of_get (hget : l.get k = some a) : (k, a) ∈ es := by
  have hslot : l.slots.get k ≠ none := by
    intro hnone
    rw [get, hnone] at hget
    cases hget
  obtain ⟨⟨k', b⟩, hmem, rfl⟩ := mem_map.mp (h.only k hslot)
  have hb := h.get_of_mem hmem
  rw [hget] at hb
  cases hb
  exact hmem

theorem get_eq_some_iff : l.get k = some a ↔ (k, a) ∈ es :=
  ⟨h.mem_of_get, h.get_of_mem⟩

/-- The slots in use hold the values of the entries. -/
theorem mem_values_iff : a ∈ l.slots.values.map (·.value) ↔ a ∈ es.map (·.2) := by
  rw [mem_map, mem_map]
  constructor
  · rintro ⟨link, hlink, rfl⟩
    obtain ⟨k, hk⟩ := Slab.mem_values_iff.mp hlink
    exact ⟨(k, link.value), h.mem_of_get (by rw [get, hk]; rfl), rfl⟩
  · rintro ⟨⟨k, b⟩, hmem, rfl⟩
    obtain ⟨link, hlink, hvalue⟩ := Option.map_eq_some_iff.mp (h.get_of_mem hmem)
    exact ⟨link, Slab.mem_values_iff.mpr ⟨k, hlink⟩, hvalue⟩

theorem head_eq_none_iff : l.head = none ↔ es = [] := by
  rw [h.head, firstKey, Option.map_eq_none_iff, head?_eq_none_iff]

/-- The new key is not one of the entries. -/
theorem vacantKey_notMem : l.slots.vacantKey ∉ es.map (·.1) := by
  intro hmem
  obtain ⟨⟨k, a⟩, hmem, hk⟩ := mem_map.mp hmem
  obtain ⟨xs, ys, rfl⟩ := append_of_mem hmem
  have hget := h.linked xs k a ys rfl
  rw [show k = l.slots.vacantKey from hk, Slab.get_vacantKey] at hget
  cases hget

theorem length_le : es.length ≤ l.slots.entries.length := by
  have hsub : es.map (·.1) ⊆ range l.slots.entries.length := by
    intro k hk
    obtain ⟨⟨k', a⟩, hmem, rfl⟩ := mem_map.mp hk
    obtain ⟨xs, ys, rfl⟩ := append_of_mem hmem
    exact mem_range.mpr (Slab.lt_length_of_get (h.linked xs k' a ys rfl))
  have hle := (subperm_of_subset h.nodup hsub).length_le
  rwa [length_map, length_range] at hle

end

/-- What the slots hold after a value has joined at the back. -/
theorem get_pushBack (h : Represents l es) (a : α) (j : Nat) :
    (l.pushBack a).1.slots.get j =
      if j = l.slots.vacantKey then some { value := a, prev := lastKey es, next := none }
      else if some j = lastKey es then
        (l.slots.get j).map fun link => { link with next := some l.slots.vacantKey }
      else l.slots.get j := by
  have hfresh : lastKey es ≠ some l.slots.vacantKey :=
    fun heq => h.vacantKey_notMem (lastKey_mem heq)
  rw [pushBack, ← h.tail]
  rw [← h.tail] at hfresh
  cases htail : l.tail with
  | none => simp [Slab.get_insert]
  | some t =>
    have ht : t ≠ l.slots.vacantKey := fun heq => hfresh (by rw [htail, heq])
    simp only [setNext, Slab.get_modify, Slab.get_insert]
    by_cases hj : j = l.slots.vacantKey
    · subst hj
      simp [Ne.symm ht]
    · simp [hj]

theorem pushBack (h : Represents l es) (a : α) :
    Represents (l.pushBack a).1 (es ++ [((l.pushBack a).2, a)]) := by
  have hkey : (l.pushBack a).2 = l.slots.vacantKey := by
    rw [LinkedSlab.pushBack]
    cases l.tail <;> rfl
  have hnotMem := h.vacantKey_notMem
  rw [hkey]
  refine ⟨?_, ?_, ?_, ?_, ?_⟩
  · rw [LinkedSlab.pushBack]
    cases htail : l.tail with
    | none =>
      have hes : es = [] := by rw [← lastKey_eq_none_iff, ← h.tail, htail]
      rw [hes]
      rfl
    | some t =>
      have hes : es ≠ [] := by
        rw [Ne, ← lastKey_eq_none_iff, ← h.tail, htail]
        exact Option.some_ne_none t
      rw [firstKey_append_of_ne_nil hes, ← h.head]
  · rw [lastKey_concat, LinkedSlab.pushBack]
    cases l.tail <;> rfl
  · intro xs k b ys hsplit
    rw [h.get_pushBack]
    rcases snoc_cases hsplit with ⟨rfl, heq, rfl⟩ | ⟨ys', rfl, hes⟩
    · cases heq
      rw [if_pos rfl, firstKey_nil]
    have hmem : k ∈ es.map (·.1) := by
      rw [hes]
      simp
    have hk : k ≠ l.slots.vacantKey := fun heq => hnotMem (heq ▸ hmem)
    have hlast : some k = lastKey es ↔ ys' = [] := hes ▸ lastKey_eq_iff (hes ▸ h.nodup)
    rw [if_neg hk, h.linked xs k b ys' hes]
    -- the next neighbour changes only for the old last entry
    by_cases hys : ys' = []
    · rw [if_pos (hlast.mpr hys), hys]
      rfl
    · rw [if_neg (hlast.not.mpr hys), firstKey_append_of_ne_nil hys]
  · intro j hj
    rw [h.get_pushBack] at hj
    rw [map_append, mem_append]
    by_cases hnew : j = l.slots.vacantKey
    · exact .inr (by simp [hnew])
    · rw [if_neg hnew] at hj
      refine .inl (h.only j fun hnone => hj ?_)
      rw [hnone]
      simp
  · rw [map_append, nodup_append]
    refine ⟨h.nodup, by simp, fun x hx y hy heq => hnotMem ?_⟩
    rwa [heq, mem_singleton.mp hy] at hx

/-- A slot of `xs ++ ys` stands before or after the gap. -/
theorem split_gap {xs₀ ys₀ : List (Nat × α)} (h : xs₀ ++ ys₀ = xs ++ (k, a) :: ys) :
    (∃ zs, xs₀ = xs ++ (k, a) :: zs ∧ ys = zs ++ ys₀) ∨
      ∃ zs, ys₀ = zs ++ (k, a) :: ys ∧ xs = xs₀ ++ zs := by
  rcases append_eq_append_iff.mp h with ⟨zs, hxs, hys⟩ | ⟨zs, hxs, hys⟩
  · exact .inr ⟨zs, hys, hxs⟩
  · cases zs with
    | nil =>
      rw [nil_append] at hys
      rw [append_nil] at hxs
      exact .inr ⟨[], by rw [← hys, nil_append], by rw [hxs, append_nil]⟩
    | cons z zs =>
      rw [cons_append, cons.injEq] at hys
      obtain ⟨rfl, hys⟩ := hys
      exact .inl ⟨zs, hxs, hys⟩

/-- What is left of the slots after the one between `xs` and `ys` has gone. -/
def unlinked (l : LinkedSlab α) (xs ys : List (Nat × α)) (k j : Nat) : Option (Link α) :=
  if j = k then none
  else if some j = lastKey xs then
    (l.slots.get j).map fun link => { link with next := firstKey ys }
  else if some j = firstKey ys then
    (l.slots.get j).map fun link => { link with prev := lastKey xs }
  else l.slots.get j

section

variable (h : Represents l (xs ++ (k, a) :: ys)) {l' : LinkedSlab α}

include h

/-- Taking one entry out leaves a list of the others. -/
theorem of_unlinked (hget : ∀ j, l'.slots.get j = unlinked l xs ys k j)
    (hhead : l'.head = firstKey (xs ++ ys)) (htail : l'.tail = lastKey (xs ++ ys)) :
    Represents l' (xs ++ ys) := by
  have hdup := h.nodup
  rw [map_append, map_cons, nodup_append, nodup_cons] at hdup
  obtain ⟨hxs, ⟨hkys, hys⟩, hdisjoint⟩ := hdup
  have hkxs : k ∉ xs.map (·.1) := fun hmem => hdisjoint k hmem k mem_cons_self rfl
  have hapart : ∀ j, j ∈ xs.map (·.1) → j ∉ ys.map (·.1) := fun j hx hy =>
    hdisjoint j hx j (mem_cons_of_mem _ hy) rfl
  refine ⟨hhead, htail, ?_, ?_, ?_⟩
  · intro us j b vs hsplit
    rw [hget, unlinked]
    rcases split_gap hsplit with ⟨zs, hxs₀, rfl⟩ | ⟨zs, hys₀, rfl⟩
    · -- the slot stands before the gap: its next neighbour changes if it is the last there
      have hmem : j ∈ xs.map (·.1) := by
        rw [hxs₀]
        simp
      have hj : j ≠ k := fun heq => hkxs (heq ▸ hmem)
      have hold := h.linked us j b (zs ++ (k, a) :: ys) (by rw [hxs₀]; simp)
      have hlast : some j = lastKey xs ↔ zs = [] := hxs₀ ▸ lastKey_eq_iff (hxs₀ ▸ hxs)
      have hfirst : some j ≠ firstKey ys := fun heq => hapart j hmem (firstKey_mem heq.symm)
      rw [if_neg hj, hold]
      by_cases hzs : zs = []
      · rw [if_pos (hlast.mpr hzs), hzs]
        rfl
      · rw [if_neg (hlast.not.mpr hzs), if_neg hfirst, firstKey_append_of_ne_nil hzs,
          firstKey_append_of_ne_nil hzs]
    · -- the slot stands after the gap: its other neighbour changes if it is the first there
      have hmem : j ∈ ys.map (·.1) := by
        rw [hys₀]
        simp
      have hj : j ≠ k := fun heq => hkys (heq ▸ hmem)
      have hold := h.linked (xs ++ (k, a) :: zs) j b vs (by rw [hys₀]; simp)
      have hlast : some j ≠ lastKey xs := fun heq => hapart j (lastKey_mem heq.symm) hmem
      rw [if_neg hj, hold, if_neg hlast]
      by_cases hzs : zs = []
      · subst hzs
        rw [if_pos (by rw [hys₀]; rfl), append_nil]
        rfl
      · have hfirst : some j ≠ firstKey ys := by
          rw [hys₀, firstKey_append_of_ne_nil hzs]
          intro heq
          rw [hys₀, map_append, nodup_append] at hys
          exact hys.2.2 j (firstKey_mem heq.symm) j (by simp) rfl
        rw [if_neg hfirst, lastKey_append_of_ne_nil (cons_ne_nil _ _),
          lastKey_cons_of_ne_nil hzs, lastKey_append_of_ne_nil hzs]
  · intro j hj
    rw [hget] at hj
    have hne : j ≠ k := by
      rintro rfl
      exact hj (by rw [unlinked, if_pos rfl])
    have hmem := h.only j fun hnone => hj (by simp [unlinked, hnone])
    rw [map_append, map_cons, mem_append, mem_cons] at hmem
    rw [map_append, mem_append]
    rcases hmem with hmem | heq | hmem
    · exact .inl hmem
    · exact absurd heq hne
    · exact .inr hmem
  · rw [map_append, nodup_append]
    exact ⟨hxs, hys, fun x hx y hy heq => hapart x hx (heq ▸ hy)⟩

/-- The ends of the list after the entry between `xs` and `ys` has gone. -/
theorem head_relink (hhead : l'.head = l.head) :
    (l'.relink (lastKey xs) (firstKey ys)).head = firstKey (xs ++ ys) := by
  rw [h.head] at hhead
  cases hlast : lastKey xs with
  | none =>
    rw [lastKey_eq_none_iff.mp hlast, nil_append]
    cases firstKey ys <;> rfl
  | some p =>
    have hxs : xs ≠ [] := by
      rintro rfl
      cases hlast
    rw [firstKey_append_of_ne_nil hxs] at hhead ⊢
    cases firstKey ys <;> exact hhead

theorem tail_relink (htail : l'.tail = l.tail) :
    (l'.relink (lastKey xs) (firstKey ys)).tail = lastKey (xs ++ ys) := by
  rw [h.tail, lastKey_append_of_ne_nil (cons_ne_nil _ _)] at htail
  cases ys with
  | nil =>
    rw [append_nil]
    cases lastKey xs <;> rfl
  | cons y ys =>
    rw [lastKey_append_of_ne_nil (cons_ne_nil _ _)]
    cases lastKey xs <;> exact htail

/-- The neighbours of an entry are two different slots. -/
theorem neighbours_ne (p : Nat) (hp : lastKey xs = some p) : firstKey ys ≠ some p := by
  intro hn
  have hdup := h.nodup
  rw [map_append, map_cons, nodup_append] at hdup
  exact hdup.2.2 p (lastKey_mem hp) p (mem_cons_of_mem _ (firstKey_mem hn)) rfl

theorem unlink : ∃ l', l.unlink k = some (a, l') ∧ Represents l' (xs ++ ys) := by
  have hlink := h.linked xs k a ys rfl
  refine ⟨_, by rw [LinkedSlab.unlink, hlink]; rfl, h.of_unlinked ?_ ?_ ?_⟩
  · intro j
    rw [get_relink _ h.neighbours_ne, unlinked]
    by_cases hj : j = k
    · simp [Slab.get_remove, hj]
    · simp [Slab.get_remove, hj]
  · exact h.head_relink rfl
  · exact h.tail_relink rfl

/-- The same with the neighbours tied before the slot is freed. -/
theorem relink_remove :
    Represents { l.relink (lastKey xs) (firstKey ys) with
      slots := (l.relink (lastKey xs) (firstKey ys)).slots.remove k } (xs ++ ys) := by
  refine h.of_unlinked ?_ ?_ ?_
  · intro j
    rw [Slab.get_remove, get_relink _ h.neighbours_ne, unlinked]
  · exact h.head_relink rfl
  · exact h.tail_relink rfl

end

theorem modifyValue (h : Represents l es) (k : Nat) (f : α → α) :
    Represents (l.modifyValue k f) (es.map (changeAt k f)) := by
  have hkeys : (es.map (changeAt k f)).map (·.1) = es.map (·.1) := by
    rw [map_map]
    exact map_congr_left fun e _ => fst_changeAt k f e
  refine ⟨by rw [firstKey_map_changeAt]; exact h.head, by rw [lastKey_map_changeAt]; exact h.tail,
    ?_, ?_, by rw [hkeys]; exact h.nodup⟩
  · intro xs' j b ys' hsplit
    obtain ⟨xs, rest, rfl, rfl, hrest⟩ := map_eq_append_iff.mp hsplit
    obtain ⟨⟨j', b'⟩, ys, rfl, he, rfl⟩ := map_eq_cons_iff.mp hrest
    have hold := h.linked xs j' b' ys rfl
    rw [firstKey_map_changeAt, lastKey_map_changeAt, LinkedSlab.modifyValue, Slab.get_modify]
    rw [changeAt] at he
    split at he
    · rename_i hk
      cases he
      rw [if_pos hk, hold]
      rfl
    · rename_i hk
      cases he
      rw [if_neg hk, hold]
  · intro j hj
    rw [hkeys]
    refine h.only j fun hnone => hj ?_
    rw [LinkedSlab.modifyValue, Slab.get_modify, hnone]
    simp

end Represents

end LinkedSlab

end Asupersync.Lib
