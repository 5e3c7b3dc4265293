import Mathlib

/-!
# Loops over ordered maps

Ordered maps and sets are those of the standard library.  This file says what the
loops over them compute that programs write by hand: inserting a value for every key
of a list, collecting the keys of a map, and merging one map into another entry by
entry.
-/

namespace Asupersync

open List
namespace Lib
namespace OrderedMap

open Std

variable {K V : Type} [LinearOrder K]

/-- Comparison decides equality in any linear order, whatever instance decides equality
of the keys elsewhere. -/
instance instLawfulEqOrdOfLinearOrder : LawfulEqOrd K := inferInstance

instance instTransOrdOfLinearOrder : TransOrd K := inferInstance

theorem getElem?_insert (m : ExtTreeMap K V) (k a : K) (v : V) [Decidable (k = a)] :
    (m.insert k v)[a]? = if k = a then some v else m[a]? := by
  rw [ExtTreeMap.getElem?_insert]
  by_cases h : k = a
  · simp [h]
  · simp [h, LawfulEqCmp.compare_eq_iff_eq]

theorem mem_insert (s : ExtTreeSet K) (k a : K) : a ∈ s.insert k ↔ k = a ∨ a ∈ s := by
  rw [ExtTreeSet.mem_insert]
  simp only [LawfulEqCmp.compare_eq_iff_eq]

theorem getD_eq (m : ExtTreeMap K V) (k : K) (d : V) : m.getD k d = m[k]?.getD d :=
  ExtTreeMap.getD_eq_getD_getElem?

/-- Writing `f k` for every key of a list. -/
theorem getElem?_foldl_insert (l : List K) (f : K → V) (m : ExtTreeMap K V) (a : K) :
    (l.foldl (fun m k => m.insert k (f k)) m)[a]? = if a ∈ l then some (f a) else m[a]? := by
  induction l generalizing m with
  | nil => simp
  | cons k l ih =>
    rw [foldl_cons, ih, getElem?_insert]
    by_cases hl : a ∈ l
    · simp [hl]
    · by_cases hk : k = a
      · simp [hk]
      · simp [hl, hk, Ne.symm hk]

theorem mem_foldl_insert_list (l : List K) (s : ExtTreeSet K) (a : K) :
    a ∈ l.foldl (fun s k => s.insert k) s ↔ a ∈ s ∨ a ∈ l := by
  induction l generalizing s with
  | nil => simp
  | cons k l ih =>
    rw [foldl_cons, ih, mem_insert, mem_cons, eq_comm, or_assoc, or_left_comm]

/-- Collecting the keys of a list of entries. -/
theorem mem_foldl_insert_iff (l : List (K × V)) (s : ExtTreeSet K) (a : K) :
    a ∈ l.foldl (fun s entry => s.insert entry.1) s ↔ a ∈ s ∨ ∃ v, (a, v) ∈ l := by
  have hmem := mem_foldl_insert_list (l.map Prod.fst) s a
  rw [foldl_map] at hmem
  simpa using hmem

/-! ## Merging one map into another -/

/-- The loop that visits the entries of `other`, gives the key the default `d` if it is
missing, and combines the value there with the one of `other`. -/
def mergeInto (f : V → V → V) (d : V) (m other : ExtTreeMap K V) : ExtTreeMap K V :=
  other.foldl (fun m k v => m.insert k (f (m.getD k d) v)) m

section MergeLoop

variable (f : V → V → V) (d : V)

theorem getElem?_foldl_of_absent (l : List (K × V)) (m : ExtTreeMap K V) (a : K)
    (ha : ∀ v, (a, v) ∉ l) :
    (l.foldl (fun m entry => m.insert entry.1 (f (m.getD entry.1 d) entry.2)) m)[a]? = m[a]? := by
  induction l generalizing m with
  | nil => rfl
  | cons entry l ih =>
    have hne : entry.1 ≠ a := by
      rintro rfl
      exact ha entry.2 mem_cons_self
    rw [foldl_cons, ih _ (fun v hv => ha v (mem_cons_of_mem _ hv)), getElem?_insert, if_neg hne]

theorem getElem?_foldl_of_mem (l : List (K × V)) (hdistinct : l.Pairwise (fun x y => x.1 ≠ y.1))
    (m : ExtTreeMap K V) {a : K} {v : V} (ha : (a, v) ∈ l) :
    (l.foldl (fun m entry => m.insert entry.1 (f (m.getD entry.1 d) entry.2)) m)[a]? =
      some (f (m.getD a d) v) := by
  induction l generalizing m with
  | nil => cases ha
  | cons entry l ih =>
    obtain ⟨hhead, htail⟩ := pairwise_cons.mp hdistinct
    rw [foldl_cons]
    rcases mem_cons.mp ha with rfl | hl
    · rw [getElem?_foldl_of_absent f d l _ a (fun w hw => hhead (a, w) hw rfl),
        getElem?_insert, if_pos rfl]
    · rw [ih htail _ hl]
      simp only [getD_eq, getElem?_insert, if_neg (hhead (a, v) hl)]

/-- A key the other map does not have keeps its value. -/
theorem getElem?_mergeInto_none {m other : ExtTreeMap K V} {a : K} (ho : other[a]? = none) :
    (mergeInto f d m other)[a]? = m[a]? := by
  unfold mergeInto
  rw [ExtTreeMap.foldl_eq_foldl_toList, getElem?_foldl_of_absent]
  intro v hv
  rw [ExtTreeMap.mem_toList_iff_getElem?_eq_some, ho] at hv
  cases hv

theorem getElem?_mergeInto_some {m other : ExtTreeMap K V} {a : K} {v : V}
    (ho : other[a]? = some v) :
    (mergeInto f d m other)[a]? = some (f (m[a]?.getD d) v) := by
  have hdistinct : other.toList.Pairwise (fun x y => x.1 ≠ y.1) :=
    ExtTreeMap.distinct_keys_toList.imp (fun hne heq => hne (LawfulEqCmp.compare_eq_iff_eq.mpr heq))
  unfold mergeInto
  rw [ExtTreeMap.foldl_eq_foldl_toList, getElem?_foldl_of_mem f d _ hdistinct m
    (ExtTreeMap.mem_toList_iff_getElem?_eq_some.mpr ho), getD_eq]

/-- A default that is neutral on the left makes the loop the key-wise combination of
the two maps. -/
theorem getElem?_mergeInto (hneutral : ∀ v, f d v = v) (m other : ExtTreeMap K V) (a : K) :
    (mergeInto f d m other)[a]? = Option.merge f m[a]? other[a]? := by
  cases ho : other[a]? with
  | none => rw [getElem?_mergeInto_none f d ho, Option.merge_none_right]
  | some v =>
    rw [getElem?_mergeInto_some f d ho]
    cases m[a]? with
    | none => exact congrArg some (hneutral v)
    | some w => rfl

end MergeLoop

section MergeLaws

variable {f : V → V → V} {d : V} (hneutral : ∀ v, f d v = v)
include hneutral

theorem mergeInto_comm (hcomm : ∀ v w, f v w = f w v) (m₁ m₂ : ExtTreeMap K V) :
    mergeInto f d m₁ m₂ = mergeInto f d m₂ m₁ := by
  apply ExtTreeMap.ext_getElem?
  intro a
  rw [getElem?_mergeInto f d hneutral, getElem?_mergeInto f d hneutral]
  cases m₁[a]? <;> cases m₂[a]? <;> simp [Option.merge, hcomm]

theorem mergeInto_assoc (hassoc : ∀ u v w, f (f u v) w = f u (f v w)) (m₁ m₂ m₃ : ExtTreeMap K V) :
    mergeInto f d (mergeInto f d m₁ m₂) m₃ = mergeInto f d m₁ (mergeInto f d m₂ m₃) := by
  apply ExtTreeMap.ext_getElem?
  intro a
  simp only [getElem?_mergeInto f d hneutral]
  cases m₁[a]? <;> cases m₂[a]? <;> cases m₃[a]? <;> simp [Option.merge, hassoc]

theorem mergeInto_self (hidem : ∀ v, f v v = v) (m : ExtTreeMap K V) : mergeInto f d m m = m := by
  apply ExtTreeMap.ext_getElem?
  intro a
  rw [getElem?_mergeInto f d hneutral]
  cases m[a]? <;> simp [Option.merge, hidem]

/-- Merging a map into itself with one value raised gives the raised map. -/
theorem mergeInto_insert (hidem : ∀ v, f v v = v) (m : ExtTreeMap K V) {k : K} {v : V}
    (hraised : f (m.getD k d) v = v) : mergeInto f d m (m.insert k v) = m.insert k v := by
  apply ExtTreeMap.ext_getElem?
  intro a
  rw [getElem?_mergeInto f d hneutral, getElem?_insert]
  split
  · rename_i heq
    subst heq
    rw [getD_eq] at hraised
    cases hk : m[k]? with
    | none => rfl
    | some w =>
      rw [hk] at hraised
      exact congrArg some hraised
  · cases m[a]? <;> simp [Option.merge, hidem]

end MergeLaws

end OrderedMap
end Lib
end Asupersync
