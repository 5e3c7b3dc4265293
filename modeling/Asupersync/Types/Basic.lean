import Mathlib.Algebra.Group.Nat.Defs
import Mathlib.Data.List.Induction
import Mathlib.Data.Prod.Lex

/-!
# Identifiers, time and budgets

The identifier newtypes over arena indices, logical time, and the `Budget`
record with its `combine` operation.

**Input.**  A budget has a deadline, a poll quota, a cost quota and a priority.
An absent deadline or cost quota means "no constraint".

**Results.**  `combine` is at least as tight as the budget it starts from
(`Budget.Tighter`), which the task lifecycle uses for the cleanup budget in force.
-/

namespace Asupersync

/-- An index into an arena: a slot number and the generation it was issued with. -/
structure ArenaIndex where
  index : UInt32
  generation : UInt32
deriving DecidableEq, Repr

/-- Identifier of a task record. -/
structure TaskId where
  arenaIndex : ArenaIndex
deriving DecidableEq, Repr

/-- Identifier of a region record. -/
structure RegionId where
  arenaIndex : ArenaIndex
deriving DecidableEq, Repr

/-- Identifier of an obligation record. -/
structure ObligationId where
  arenaIndex : ArenaIndex
deriving DecidableEq, Repr

/-- Slot first, then generation. -/
def ArenaIndex.key (i : ArenaIndex) : Nat ×ₗ Nat := toLex (i.index.toNat, i.generation.toNat)

theorem ArenaIndex.key_injective : Function.Injective ArenaIndex.key := by
  intro i j h
  obtain ⟨hindex, hgeneration⟩ := Prod.mk.inj (toLex.injective h)
  cases i
  congr
  · exact UInt32.toNat_inj.mp hindex
  · exact UInt32.toNat_inj.mp hgeneration

instance : LinearOrder ArenaIndex := LinearOrder.lift' ArenaIndex.key ArenaIndex.key_injective

instance : LinearOrder ObligationId :=
  LinearOrder.lift' ObligationId.arenaIndex (by
    rintro ⟨i⟩ ⟨j⟩ h
    exact congrArg ObligationId.mk h)

theorem TaskId.arenaIndex_eq_iff {t : TaskId} {i : ArenaIndex} : t.arenaIndex = i ↔ t = ⟨i⟩ := by
  cases t
  simp

theorem RegionId.arenaIndex_eq_iff {r : RegionId} {i : ArenaIndex} :
    r.arenaIndex = i ↔ r = ⟨i⟩ := by
  cases r
  simp

/-- Logical time in nanoseconds. -/
abbrev Time := Nat

/-- The largest value of the source's `u32`. -/
def u32Max : Nat := 4294967295

/-- The largest value of the source's `u64`. -/
def u64Max : Nat := 18446744073709551615

/-- The largest value of the source's `usize`, on a 64-bit target. -/
def usizeMax : Nat := 18446744073709551615

/-- What a task is woken by; two wakers are equal when they wake the same task. -/
structure Waker where
  task : Nat
deriving DecidableEq, Repr

/-- Resource bounds of a task or of a cleanup phase. -/
structure Budget where
  deadline : Option Time
  pollQuota : Nat
  costQuota : Option Nat
  priority : Nat
deriving DecidableEq, Repr

namespace Budget

/-- No constraints. -/
def infinite : Budget :=
  { deadline := none, pollQuota := u32Max, costQuota := none, priority := 0 }

/-- The default budget: priority 128, unlimited quotas. -/
def new : Budget :=
  { deadline := none, pollQuota := u32Max, costQuota := none, priority := 128 }

/-- The minimal budget for cleanup operations. -/
def minimal : Budget :=
  { deadline := none, pollQuota := 100, costQuota := none, priority := 128 }

/-- Sets the poll quota. -/
def withPollQuota (b : Budget) (quota : Nat) : Budget :=
  { b with pollQuota := quota }

/-- Sets the deadline. -/
def withDeadline (b : Budget) (deadline : Time) : Budget :=
  { b with deadline := some deadline }

/-- Sets the priority. -/
def withPriority (b : Budget) (priority : Nat) : Budget :=
  { b with priority := priority }

/-- The smaller of two optional bounds, where `none` is no bound. -/
def minBound : Option Nat → Option Nat → Option Nat
  | some a, some b => some (min a b)
  | some a, none => some a
  | none, some b => some b
  | none, none => none

/-- The tightest constraints of both budgets, with the higher priority. -/
def combine (b c : Budget) : Budget :=
  { deadline := minBound b.deadline c.deadline
    pollQuota := min b.pollQuota c.pollQuota
    costQuota := minBound b.costQuota c.costQuota
    priority := max b.priority c.priority }

/-- `boundLe a b`: the bound `a` is at least as strict as `b`. -/
def boundLe : Option Nat → Option Nat → Prop
  | _, none => True
  | some a, some b => a ≤ b
  | none, some _ => False

/-- `Tighter b c`: every constraint of `b` is at least as strict as that of `c`,
and `b` has at least the priority of `c`. -/
structure Tighter (b c : Budget) : Prop where
  deadline : boundLe b.deadline c.deadline
  pollQuota : b.pollQuota ≤ c.pollQuota
  costQuota : boundLe b.costQuota c.costQuota
  priority : c.priority ≤ b.priority

theorem minBound_le_left (a b : Option Nat) : boundLe (minBound a b) a := by
  cases a <;> cases b <;> simp [minBound, boundLe]

theorem boundLe_refl (a : Option Nat) : boundLe a a := by
  cases a <;> simp [boundLe]

theorem boundLe_trans {a b c : Option Nat}
    (hab : boundLe a b) (hbc : boundLe b c) : boundLe a c := by
  cases a <;> cases b <;> cases c <;> simp_all [boundLe]
  omega

theorem Tighter.refl (b : Budget) : Tighter b b :=
  ⟨boundLe_refl _, le_refl _, boundLe_refl _, le_refl _⟩

theorem Tighter.trans {a b c : Budget} (hab : Tighter a b) (hbc : Tighter b c) : Tighter a c :=
  ⟨boundLe_trans hab.deadline hbc.deadline, le_trans hab.pollQuota hbc.pollQuota,
    boundLe_trans hab.costQuota hbc.costQuota, le_trans hbc.priority hab.priority⟩

/-- Combining can only tighten the left budget. -/
theorem combine_tighter_left (b c : Budget) : Tighter (b.combine c) b :=
  ⟨minBound_le_left _ _, min_le_left _ _, minBound_le_left _ _, le_max_left _ _⟩

/-- The combination of a list of budgets, `none` for the empty list. -/
def combineAll : List Budget → Option Budget
  | [] => none
  | b :: bs => some (bs.foldl combine b)

theorem combineAll_append_singleton (bs : List Budget) (c : Budget) :
    combineAll (bs ++ [c]) = some (match combineAll bs with
        | none => c
        | some b => b.combine c) := by
  cases bs with
  | nil => rfl
  | cons b bs => simp [combineAll, List.foldl_append]

/-- The combination of a longer list is tighter than that of its initial part. -/
theorem combineAll_append_tighter {bs : List Budget} {b : Budget}
    (hb : combineAll bs = some b) (cs : List Budget) :
    ∃ c, combineAll (bs ++ cs) = some c ∧ Tighter c b := by
  induction cs using List.reverseRecOn with
  | nil => exact ⟨b, by simpa using hb, Tighter.refl b⟩
  | append_singleton cs c ih =>
    obtain ⟨d, hd, htight⟩ := ih
    refine ⟨d.combine c, ?_, (combine_tighter_left d c).trans htight⟩
    rw [← List.append_assoc, combineAll_append_singleton, hd]

end Budget

end Asupersync
