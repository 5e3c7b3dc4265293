import Mathlib.Data.List.Perm.Basic
import Mathlib.Data.List.Perm.Lattice

/-!
# Priority queues as unordered lists

A binary heap is used by its clients through `push`, `peek`, `pop` and `retain`
only, and the order of its array is never visible.  So a heap is modelled as the
list of its entries in no particular order, and `pop` takes out an entry that is
greatest for the given comparison.

**Results.**
* `pop_perm`: a pop takes out exactly one entry.
* `peek_key_le`: the entry on top has the least key, for every key that the
  comparison looks at first.  The comparison need not be transitive beyond it.
-/

namespace Asupersync

open List
namespace Lib
namespace MaxHeap

universe u

variable {α : Type u} [DecidableEq α] (le : α → α → Bool)

/-- The greater of two entries, the second one on a tie. -/
def larger (a b : α) : α := if le a b then b else a

/-- The entry on top. -/
def peek : List α → Option α
  | [] => none
  | a :: l => some (l.foldl (larger le) a)

/-- Takes the top entry out. -/
def pop (l : List α) : Option (α × List α) :=
  match peek le l with
  | none => none
  | some a => some (a, l.erase a)

omit [DecidableEq α] in
theorem foldl_larger_mem (a : α) (l : List α) : l.foldl (larger le) a ∈ a :: l := by
  induction l generalizing a with
  | nil => simp
  | cons b l ih =>
    rw [foldl_cons]
    have hmem := ih (larger le a b)
    rcases mem_cons.mp hmem with hmem | hmem
    · rw [hmem]
      unfold larger
      split
      · exact mem_cons_of_mem _ mem_cons_self
      · exact mem_cons_self
    · exact mem_cons_of_mem _ (mem_cons_of_mem _ hmem)

omit [DecidableEq α] in
theorem peek_mem {l : List α} {a : α} (h : peek le l = some a) : a ∈ l := by
  cases l with
  | nil => cases h
  | cons b l =>
    rw [← Option.some.inj h]
    exact foldl_larger_mem le b l

omit [DecidableEq α] in
theorem peek_eq_none_iff (l : List α) : peek le l = none ↔ l = [] := by
  cases l <;> simp [peek]

theorem pop_eq_none_iff (l : List α) : pop le l = none ↔ l = [] := by
  unfold pop
  cases h : peek le l with
  | none => simpa using (peek_eq_none_iff le l).mp h
  | some a =>
    have hne : l ≠ [] := by
      rintro rfl
      cases h
    simp [hne]

/-- A pop takes out exactly one entry. -/
theorem pop_perm {l l' : List α} {a : α} (h : pop le l = some (a, l')) : l.Perm (a :: l') := by
  unfold pop at h
  cases hpeek : peek le l with
  | none => rw [hpeek] at h; cases h
  | some b =>
    rw [hpeek] at h
    cases h
    exact perm_cons_erase (peek_mem le hpeek)

section Key

omit [DecidableEq α]

variable {le} {key : α → Nat} {tie : α → α → Ordering}
variable (hle : ∀ a b, le a b = ((compare (key b) (key a)).then (tie a b)).isLE)
include hle

theorem key_larger_le (a b : α) : key (larger le a b) ≤ key a ∧ key (larger le a b) ≤ key b := by
  unfold larger
  split_ifs with h
  · rw [hle, Ordering.isLE_then_iff_and, Nat.isLE_compare] at h
    exact ⟨h.1, Nat.le_refl _⟩
  · refine ⟨Nat.le_refl _, ?_⟩
    by_contra hlt
    rw [hle, Nat.compare_eq_lt.mpr (Nat.lt_of_not_le hlt)] at h
    exact h rfl

theorem foldl_larger_key (a : α) (l : List α) :
    ∀ b ∈ a :: l, key (l.foldl (larger le) a) ≤ key b := by
  induction l generalizing a with
  | nil =>
    intro b hb
    rw [mem_singleton] at hb
    rw [hb]
    exact Nat.le_refl _
  | cons c l ih =>
    -- the running top is at least as early as the old one and the new entry
    obtain ⟨hleft, hright⟩ := key_larger_le hle a c
    have htop := ih (larger le a c) (larger le a c) mem_cons_self
    intro b hb
    rcases mem_cons.mp hb with rfl | hb
    · exact Nat.le_trans htop hleft
    · rcases mem_cons.mp hb with rfl | hb
      · exact Nat.le_trans htop hright
      · exact ih (larger le a c) b (mem_cons_of_mem _ hb)

/-- The entry on top has the least key, when the comparison looks at the key first. -/
theorem peek_key_le {l : List α} {a : α} (h : peek le l = some a) : ∀ b ∈ l, key a ≤ key b := by
  cases l with
  | nil => cases h
  | cons c l =>
    rw [← Option.some.inj h]
    exact foldl_larger_key hle c l

end Key

end MaxHeap
end Lib
end Asupersync
