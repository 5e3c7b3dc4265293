import Mathlib.Data.List.Nodup
import Mathlib.Data.List.Pairwise

/-!
# Waiting lines

Members of a line hold tickets; `order` lists everybody who ever joined, in the
order of joining, and those without a ticket any more have left the line.  The
line itself is the list of the tickets in that order.

A member who leaves takes exactly their ticket out of the line, one who joins
adds theirs at the end, and a ticket has one holder.
-/

namespace Asupersync.Lib.WaitLine

open List Function

universe u v

variable {ι : Type u} {κ : Type v} {order : List ι} {ticket : ι → Option κ}
  {i j : ι} {t : κ}

/-- Someone who never joined has no place in the line. -/
theorem line_update_of_notMem [DecidableEq ι] (hi : i ∉ order) (x : Option κ) :
    order.filterMap (update ticket i x) = order.filterMap ticket := by
  refine filterMap_congr fun k hk => ?_
  rw [update_of_ne]
  rintro rfl
  exact hi hk

theorem line_join [DecidableEq ι] (hi : i ∉ order) (t : κ) :
    (order ++ [i]).filterMap (update ticket i (some t)) = order.filterMap ticket ++ [t] := by
  rw [filterMap_append, line_update_of_notMem hi]
  simp

theorem line_leave [DecidableEq ι] [DecidableEq κ] (horder : order.Nodup) (hline : (order.filterMap ticket).Nodup)
    (hi : i ∈ order) (ht : ticket i = some t) :
    order.filterMap (update ticket i none) = (order.filterMap ticket).erase t := by
  obtain ⟨pre, post, rfl⟩ := append_of_mem hi
  have hnot := (nodup_cons.mp (nodup_middle.mp horder)).1
  rw [mem_append, not_or] at hnot
  rw [filterMap_append, filterMap_cons_some ht] at hline
  have htaken : t ∉ pre.filterMap ticket := fun hmem =>
    disjoint_of_nodup_append hline hmem mem_cons_self
  rw [filterMap_append, filterMap_append, filterMap_cons_none (update_self i none ticket),
    filterMap_cons_some ht, line_update_of_notMem hnot.1, line_update_of_notMem hnot.2,
    erase_append_right _ htaken, erase_cons_head]

/-- A ticket in the line has one holder. -/
theorem holder_unique (hline : (order.filterMap ticket).Nodup) (hi : i ∈ order) (hj : j ∈ order)
    (hti : ticket i = some t) (htj : ticket j = some t) : i = j := by
  by_contra hne
  have : Std.Symm fun i j => ∀ t, ticket i = some t → ∀ t', ticket j = some t' → t ≠ t' :=
    ⟨fun _ _ h t ht t' ht' => (h t' ht' t ht).symm⟩
  exact (pairwise_filterMap.mp hline).forall hi hj hne t hti t htj rfl

/-- Nobody but a newcomer gets a place. -/
theorem arrive {order' : List ι} (horder : order.Nodup)
    (h : order' = order ∨ order' = order ++ [i] ∧ i ∉ order) :
    order'.Nodup ∧ ∀ j, j ≠ i → (j ∈ order' ↔ j ∈ order) := by
  rcases h with rfl | ⟨rfl, hi⟩
  · exact ⟨horder, fun _ _ => Iff.rfl⟩
  · refine ⟨nodup_middle.mpr (nodup_cons.mpr ⟨by rwa [append_nil], by rwa [append_nil]⟩), ?_⟩
    intro j hne
    rw [mem_append, mem_singleton, or_iff_left hne]

/-- The tickets of those still waiting are the line. -/
theorem map_ticket_waiting (order : List ι) (ticket : ι → Option κ) :
    (order.filter fun k => (ticket k).isSome).map ticket = (order.filterMap ticket).map some := by
  induction order with
  | nil => rfl
  | cons k rest ih =>
    cases hticket : ticket k with
    | none =>
      rw [filterMap_cons_none hticket, filter_cons_of_neg (by simp [hticket]), ih]
    | some t =>
      rw [filterMap_cons_some hticket, filter_cons_of_pos (by simp [hticket]),
        map_cons, map_cons, ih, hticket]

/-- The holder of the first ticket is the first member still waiting. -/
theorem head_of_line {rest : List κ} (hi : i ∈ order) (hline : (order.filterMap ticket).Nodup)
    (ht : ticket i = some t) (hhead : order.filterMap ticket = t :: rest) :
    (order.filter fun k => (ticket k).isSome).head? = some i := by
  have htickets := map_ticket_waiting order ticket
  rw [hhead, map_cons] at htickets
  obtain ⟨k, others, hwaiting, hk, -⟩ := map_eq_cons_iff.mp htickets
  have hmem : k ∈ order := (mem_filter.mp (hwaiting ▸ mem_cons_self)).1
  rw [hwaiting, head?_cons, holder_unique hline hmem hi hk ht]

/-- The line is empty when nobody waits. -/
theorem filter_eq_nil_of_line (h : order.filterMap ticket = []) :
    (order.filter fun k => (ticket k).isSome) = [] := by
  rw [filterMap_eq_nil_iff] at h
  rw [filter_eq_nil_iff]
  intro k hk
  simp [h k hk]

end Asupersync.Lib.WaitLine
