import Mathlib.Data.List.Induction

/-!
# Streaks in a list of events

A streak is a block of consecutive entries that all satisfy a predicate.  A
program bounds streaks with a counter: it counts up at such an entry, and only
while the counter is below a limit.

**Results.**
* `trailing_snoc`: how the streak at the end of a list grows.
* `Counted`: the counter is at least the streak at the end, and no streak has
  passed the limit.  `Counted.hit` and `Counted.miss` are its steps.
* `Counted.block_length_le`: no block of such entries is longer than the limit.
-/

namespace Asupersync

open List
namespace Lib

universe u

variable {α : Type u} (p : α → Bool)

/-- The length of the streak at the end of a list. -/
def trailing (l : List α) : Nat := (l.reverse.takeWhile p).length

theorem trailing_snoc (l : List α) (a : α) :
    trailing p (l ++ [a]) = if p a then trailing p l + 1 else 0 := by
  unfold trailing
  rw [reverse_append, reverse_singleton, singleton_append, takeWhile_cons]
  split
  · rw [length_cons]
  · rfl

/-- A block at the end of a list is no longer than the streak there. -/
theorem block_le_trailing (l block : List α) (hblock : ∀ a ∈ block, p a = true) :
    block.length ≤ trailing p (l ++ block) := by
  induction block using reverseRecOn with
  | nil => exact Nat.zero_le _
  | append_singleton block a ih =>
    have hlast : p a = true := hblock a (by simp)
    have hinit := ih fun b hb => hblock b (by simp [hb])
    rw [← append_assoc, trailing_snoc, if_pos hlast, length_append, length_singleton]
    exact Nat.succ_le_succ hinit

/-- A counter that covers the streak at the end of a list none of whose streaks has
passed the limit. -/
structure Counted (l : List α) (counter limit : Nat) : Prop where
  covers : trailing p l ≤ counter
  bound : ∀ l', l' <+: l → trailing p l' ≤ limit

namespace Counted

variable {p} {l : List α} {a : α} {counter counter' limit limit' : Nat}

theorem nil : Counted p [] counter limit := by
  refine ⟨Nat.zero_le _, fun l' hprefix => ?_⟩
  rw [prefix_nil.mp hprefix]
  exact Nat.zero_le _

variable (h : Counted p l counter limit)

include h

theorem mono (hcounter : counter ≤ counter') (hlimit : limit ≤ limit') :
    Counted p l counter' limit' :=
  ⟨Nat.le_trans h.covers hcounter, fun l' hprefix => Nat.le_trans (h.bound l' hprefix) hlimit⟩

theorem snoc (hcovers : trailing p (l ++ [a]) ≤ counter') (hlast : trailing p (l ++ [a]) ≤ limit) :
    Counted p (l ++ [a]) counter' limit := by
  refine ⟨hcovers, fun l' hprefix => ?_⟩
  rcases prefix_concat_iff.mp hprefix with heq | hprefix
  · rw [heq]
    exact hlast
  · exact h.bound l' hprefix

/-- One more entry of the streak, while the counter is below the limit. -/
theorem hit (ha : p a = true) (hlimit : counter < limit) :
    Counted p (l ++ [a]) (counter + 1) limit := by
  have htrailing : trailing p (l ++ [a]) ≤ counter + 1 := by
    rw [trailing_snoc, if_pos ha]
    exact Nat.succ_le_succ h.covers
  exact h.snoc htrailing (Nat.le_trans htrailing hlimit)

/-- An entry that ends the streak, whatever happens to the counter. -/
theorem miss (ha : p a = false) : Counted p (l ++ [a]) counter' limit := by
  have htrailing : trailing p (l ++ [a]) = 0 := by
    rw [trailing_snoc, ha]
    rfl
  refine h.snoc ?_ ?_
  · rw [htrailing]
    exact Nat.zero_le _
  · rw [htrailing]
    exact Nat.zero_le _

theorem block_length_le {before block after : List α}
    (heq : l = before ++ block ++ after) (hblock : ∀ a ∈ block, p a = true) :
    block.length ≤ limit := by
  have hprefix : before ++ block <+: l := ⟨after, heq.symm⟩
  exact Nat.le_trans (block_le_trailing p before block hblock) (h.bound _ hprefix)

end Counted

end Lib
end Asupersync
