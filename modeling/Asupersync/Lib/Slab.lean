import Mathlib.Data.List.Basic

/-!
# Slabs

A slab hands out keys for the values put into it and reuses the keys of values
that were taken out, the one freed last first.  The list of free keys is part of
the value, with the fact that they are vacant, so a new key is never one in use.

All that users need is `get` and what each operation does to it.
-/

namespace Asupersync.Lib

open List

universe u

structure Slab (α : Type u) where
  entries : List (Option α)
  /-- The vacant keys, the next to be reused first. -/
  free : List Nat
  free_vacant : ∀ k ∈ free, entries[k]? = some none
  free_nodup : free.Nodup

namespace Slab

variable {α : Type u}

def empty : Slab α where
  entries := []
  free := []
  free_vacant := fun _ h => absurd h not_mem_nil
  free_nodup := nodup_nil

def get (s : Slab α) (k : Nat) : Option α := s.entries[k]?.join

/-- The key the next value gets. -/
def vacantKey (s : Slab α) : Nat := s.free.headD s.entries.length

theorem get_eq_none_of_vacant {s : Slab α} {k : Nat} (h : s.entries[k]? = some none) :
    s.get k = none := by
  rw [get, h]
  rfl

theorem lt_length_of_get {s : Slab α} {k : Nat} {a : α} (h : s.get k = some a) :
    k < s.entries.length := by
  refine Nat.lt_of_not_le fun hle => ?_
  rw [get, getElem?_eq_none hle] at h
  cases h

@[simp] theorem get_empty (k : Nat) : (empty : Slab α).get k = none := by
  simp [get, empty]

@[simp] theorem get_vacantKey (s : Slab α) : s.get s.vacantKey = none := by
  rw [vacantKey]
  cases hfree : s.free with
  | nil => simp [get]
  | cons k rest =>
    refine get_eq_none_of_vacant (s.free_vacant k ?_)
    rw [hfree]
    exact mem_cons_self

/-- Puts a value under the vacant key. -/
def insert (s : Slab α) (a : α) : Slab α :=
  match hfree : s.free with
  | [] =>
    { entries := s.entries ++ [some a]
      free := []
      free_vacant := fun _ h => absurd h not_mem_nil
      free_nodup := nodup_nil }
  | key :: rest =>
    { entries := s.entries.set key (some a)
      free := rest
      free_vacant := by
        intro k hk
        have hnodup := s.free_nodup
        rw [hfree, nodup_cons] at hnodup
        have hne : key ≠ k := fun heq => hnodup.1 (heq ▸ hk)
        rw [getElem?_set_ne hne]
        exact s.free_vacant k (hfree ▸ mem_cons_of_mem key hk)
      free_nodup := by
        have hnodup := s.free_nodup
        rw [hfree, nodup_cons] at hnodup
        exact hnodup.2 }

/-- Changes the value under a key in use. -/
def modify (s : Slab α) (k : Nat) (f : α → α) : Slab α where
  entries := s.entries.modify k (Option.map f)
  free := s.free
  free_vacant := by
    intro j hj
    rw [getElem?_modify, s.free_vacant j hj]
    by_cases h : k = j <;> simp [h]
  free_nodup := s.free_nodup

/-- Frees a key in use. -/
def remove (s : Slab α) (k : Nat) : Slab α :=
  if h : (s.get k).isSome then
    { entries := s.entries.set k none
      free := k :: s.free
      free_vacant := by
        intro j hj
        obtain ⟨a, ha⟩ := Option.isSome_iff_exists.mp h
        have hlt := lt_length_of_get ha
        rcases eq_or_ne k j with rfl | hne
        · rw [getElem?_set_self hlt]
        · rw [getElem?_set_ne hne]
          exact s.free_vacant j ((mem_cons.mp hj).resolve_left hne.symm)
      free_nodup := by
        refine nodup_cons.mpr ⟨fun hmem => ?_, s.free_nodup⟩
        rw [get_eq_none_of_vacant (s.free_vacant k hmem)] at h
        cases h }
  else s

theorem get_insert (s : Slab α) (a : α) (k : Nat) :
    (s.insert a).get k = if k = s.vacantKey then some a else s.get k := by
  rw [insert]
  split
  · rename_i hfree
    have hkey : s.vacantKey = s.entries.length := by rw [vacantKey, hfree]; rfl
    rw [hkey, get, get]
    rcases Nat.lt_trichotomy k s.entries.length with hlt | rfl | hgt
    · rw [if_neg (Nat.ne_of_lt hlt), getElem?_append_left hlt]
    · simp
    · rw [if_neg (Nat.ne_of_gt hgt), List.getElem?_eq_none (Nat.le_of_lt hgt),
        List.getElem?_eq_none (by rw [length_append]; exact hgt)]
  · rename_i key rest hfree
    have hkey : s.vacantKey = key := by rw [vacantKey, hfree]; rfl
    have hvacant := s.free_vacant key (by rw [hfree]; exact mem_cons_self)
    have hlt : key < s.entries.length := (List.getElem?_eq_some_iff.mp hvacant).1
    rw [hkey, get, get]
    by_cases h : k = key
    · subst h
      rw [if_pos rfl, getElem?_set_self hlt]
      rfl
    · rw [if_neg h, getElem?_set_ne (Ne.symm h)]

theorem get_modify (s : Slab α) (k : Nat) (f : α → α) (j : Nat) :
    (s.modify k f).get j = if j = k then (s.get j).map f else s.get j := by
  rw [get, get, modify, getElem?_modify]
  by_cases h : j = k
  · subst h
    rcases s.entries[j]? with _ | _ | a <;> simp
  · rw [if_neg h]
    rcases s.entries[j]? with _ | a <;> simp [Ne.symm h]

theorem get_remove (s : Slab α) (k j : Nat) :
    (s.remove k).get j = if j = k then none else s.get j := by
  rw [remove]
  split
  · rw [get, get]
    by_cases h : j = k
    · subst h
      rw [if_pos rfl, getElem?_set, if_pos rfl]
      split <;> rfl
    · rw [if_neg h, getElem?_set_ne (Ne.symm h)]
  · rename_i h
    by_cases hj : j = k
    · subst hj
      rw [if_pos rfl]
      exact Option.not_isSome_iff_eq_none.mp h
    · rw [if_neg hj]

/-- The values in the order of their keys. -/
def values (s : Slab α) : List α := s.entries.filterMap fun entry => entry

theorem mem_values_iff {s : Slab α} {a : α} : a ∈ s.values ↔ ∃ k, s.get k = some a := by
  rw [values, mem_filterMap]
  constructor
  · rintro ⟨entry, hmem, rfl⟩
    obtain ⟨k, hk⟩ := mem_iff_getElem?.mp hmem
    exact ⟨k, by rw [get, hk]; rfl⟩
  · rintro ⟨k, hk⟩
    exact ⟨some a, mem_of_getElem? (Option.join_eq_some_iff.mp hk), rfl⟩

end Slab

end Asupersync.Lib
