import Asupersync.Trace.FoataShape

/-!
# Races of a trace

`detect_races` lists the pairs of dependent events with no event in between that
depends on both.

**Results.**  `race_completeness`: the races generate the dependence order of the
trace, and every rearrangement of the trace that is not equivalent to it reverses
one of them.
-/

namespace Asupersync

open Lib.TraceTheory

/-- Positions of two racing events. -/
structure Race where
  earlier : Nat
  later : Nat
deriving DecidableEq, Repr

structure BacktrackPoint where
  race : Race
  divergenceIndex : Nat
deriving DecidableEq, Repr

structure RaceAnalysis where
  races : List Race
  backtrackPoints : List BacktrackPoint
deriving DecidableEq, Repr

/-- The events at two positions of the trace are not independent. -/
def dependentAt (events : List TraceEvent) (i j : Nat) : Bool :=
  match events[i]?, events[j]? with
  | some a, some b => !independent a b
  | _, _ => false

/-- Some event strictly between depends on both. -/
def hasIntervening (events : List TraceEvent) (i j : Nat) : Bool :=
  (List.range' (i + 1) (j - (i + 1))).any
    (fun k => dependentAt events i k && dependentAt events k j)

/-- The races of the event at position `i` with a later event. -/
def racesFrom (events : List TraceEvent) (i : Nat) : List Race :=
  ((List.range' (i + 1) (events.length - (i + 1))).filter
    (fun j => dependentAt events i j && !hasIntervening events i j)).map (fun j => ⟨i, j⟩)

def detectRaces (events : List TraceEvent) : RaceAnalysis :=
  let races := (List.range events.length).flatMap (racesFrom events)
  { races := races
    backtrackPoints := races.map (fun race => ⟨race, race.earlier⟩) }

/-! ## The dependence order -/

/-- A position before another one with a dependent event. -/
def Dependent (w : List TraceEvent) (i j : Nat) : Prop :=
  i < j ∧ ∃ a b, w[i]? = some a ∧ w[j]? = some b ∧ ¬ Indep a b

/-- A detected race, as a relation on positions. -/
def Races (w : List TraceEvent) (i j : Nat) : Prop := (⟨i, j⟩ : Race) ∈ (detectRaces w).races

variable {w : List TraceEvent} {i j : Nat}

theorem dependentAt_iff :
    dependentAt w i j = true ↔
      ∃ a b, w[i]? = some a ∧ w[j]? = some b ∧ ¬ Indep a b := by
  unfold dependentAt
  cases hi : w[i]? with
  | none => simp
  | some a =>
    cases hj : w[j]? with
    | none | some b => simp

theorem hasIntervening_iff :
    hasIntervening w i j = true ↔ ∃ k, Dependent w i k ∧ Dependent w k j := by
  unfold hasIntervening Dependent
  simp only [List.any_eq_true, List.mem_range'_1, Bool.and_eq_true, dependentAt_iff]
  constructor
  · rintro ⟨k, ⟨hik, hkj⟩, hfirst, hsecond⟩
    exact ⟨k, ⟨by omega, hfirst⟩, by omega, hsecond⟩
  · rintro ⟨k, ⟨hik, hfirst⟩, hkj, hsecond⟩
    exact ⟨k, by omega, hfirst, hsecond⟩

theorem races_iff : Races w i j ↔ Dependent w i j ∧ ¬ ∃ k, Dependent w i k ∧ Dependent w k j := by
  rw [← hasIntervening_iff]
  unfold Races detectRaces racesFrom Dependent
  simp only [List.mem_flatMap, List.mem_range, List.mem_map, List.mem_filter, List.mem_range'_1,
    Bool.and_eq_true, dependentAt_iff, Race.mk.injEq]
  constructor
  · rintro ⟨i', hi', j', ⟨⟨hij, hj⟩, hdep, hnone⟩, rfl, rfl⟩
    exact ⟨⟨by omega, hdep⟩, by simpa using hnone⟩
  · rintro ⟨⟨hij, a, b, ha, hb, hdep⟩, hnone⟩
    have hj : j < w.length := (List.getElem?_eq_some_iff.mp hb).1
    exact ⟨i, by omega, j, ⟨by omega, ⟨a, b, ha, hb, hdep⟩, by simpa using hnone⟩, rfl, rfl⟩

/-- Induction on the distance: a dependent pair is a race, or splits at an intervening
event. -/
theorem transGen_races_of_dependent (h : Dependent w i j) : Relation.TransGen (Races w) i j := by
  induction hn : j - i using Nat.strong_induction_on generalizing i j with
  | _ n ih =>
    by_cases hbetween : ∃ k, Dependent w i k ∧ Dependent w k j
    · obtain ⟨k, hik, hkj⟩ := hbetween
      have hlt := hik.1
      have hlt' := hkj.1
      exact (ih (k - i) (by omega) hik rfl).trans (ih (j - k) (by omega) hkj rfl)
    · exact .single (races_iff.mpr ⟨h, hbetween⟩)

theorem transGen_races_eq (w : List TraceEvent) :
    Relation.TransGen (Races w) = Relation.TransGen (Dependent w) := by
  funext i j
  refine propext ⟨?_, ?_⟩
  · intro h
    exact Relation.TransGen.mono (fun i j hrace => (races_iff.mp hrace).1) i j h
  · intro h
    induction h with
    | single h => exact transGen_races_of_dependent h
    | tail _ h ih => exact ih.trans (transGen_races_of_dependent h)

/-! ## Reversed races -/

/-- If no race is reversed, the dependence order is kept. -/
theorem before_of_transGen {w' : List TraceEvent} (hnodup : w'.Nodup)
    (hkeep : ∀ i j a b, Races w i j → w[i]? = some a → w[j]? = some b → Before w' a b)
    (h : Relation.TransGen (Races w) i j) {a b : TraceEvent} (ha : w[i]? = some a)
    (hb : w[j]? = some b) : Before w' a b := by
  induction h generalizing b with
  | single h => exact hkeep _ _ a b h ha hb
  | tail _ h ih =>
    obtain ⟨-, c, d, hc, hd, -⟩ := (races_iff.mp h).1
    exact (ih hc).trans hnodup (hkeep _ _ c b h hc hb)

theorem exists_reversed_race {w' : List TraceEvent} (hdistinct : DistinctSeq w)
    (hperm : w.Perm w') (hnot : ¬ TraceSwaps w w') :
    ∃ i j a b, Races w i j ∧ w[i]? = some a ∧ w[j]? = some b ∧ Before w' b a := by
  by_contra hnone
  have hnodup' : w'.Nodup := (hdistinct.perm hperm).nodup
  have hkeep (i j : Nat) (a b : TraceEvent) (hrace : Races w i j) (ha : w[i]? = some a)
      (hb : w[j]? = some b) : Before w' a b := by
    have hij : i ≠ j := (races_iff.mp hrace).1.1.ne
    have hne : a ≠ b := by
      rintro rfl
      have hi : i < w.length := (List.getElem?_eq_some_iff.mp ha).1
      exact hij ((List.getElem?_inj hi hdistinct.nodup).mp (ha.trans hb.symm))
    have hmem (k : Nat) (c : TraceEvent) (hc : w[k]? = some c) : c ∈ w' :=
      hperm.mem_iff.mp (List.mem_of_getElem? hc)
    rcases before_or_before (hmem i a ha) (hmem j b hb) hne with hab | hba
    · exact hab
    · exact (hnone ⟨i, j, a, b, hrace, ha, hb, hba⟩).elim
  refine hnot (swaps_of_before hdistinct.nodup hperm ?_)
  intro a b hdep hbefore
  obtain ⟨i, j, hij, ha, hb⟩ := hbefore.exists_lt
  exact before_of_transGen hnodup' hkeep
    (transGen_races_of_dependent ⟨hij, a, b, ha, hb, hdep⟩) ha hb

/-- **Race completeness.**  For every trace with distinct sequence numbers the transitive
closure of the detected races is the dependence order of the trace, and a rearrangement
that is not reached by swaps of independent neighbours has the later event of some race
before the earlier one. -/
theorem race_completeness (w : List TraceEvent) (h : DistinctSeq w) :
    Relation.TransGen (fun i j => (⟨i, j⟩ : Race) ∈ (detectRaces w).races) =
        Relation.TransGen (Dependent w) ∧
      ∀ w', w.Perm w' → ¬ TraceSwaps w w' →
        ∃ i j a b, (⟨i, j⟩ : Race) ∈ (detectRaces w).races ∧ w[i]? = some a ∧
          w[j]? = some b ∧ Before w' b a :=
  ⟨transGen_races_eq w, fun _ hperm hnot => exists_reversed_race h hperm hnot⟩

/-- A task that completes before it is spawned: the layers differ, so swaps do not lead
there, and the race between the two events is reversed. -/
theorem race_completeness_complete_first :
    let spawn := TraceEvent.new 1 0 .spawn (.task ⟨⟨1, 0⟩⟩ ⟨⟨1, 0⟩⟩)
    let complete := TraceEvent.new 2 0 .complete (.task ⟨⟨1, 0⟩⟩ ⟨⟨1, 0⟩⟩)
    (detectRaces [spawn, complete]).races = [⟨0, 1⟩] ∧
      ∃ i j a b, (⟨i, j⟩ : Race) ∈ (detectRaces [spawn, complete]).races ∧
        [spawn, complete][i]? = some a ∧ [spawn, complete][j]? = some b ∧
          Before [complete, spawn] b a := by
  intro spawn complete
  refine ⟨by decide, (race_completeness [spawn, complete] (by decide)).2 _ (.swap _ _ _) ?_⟩
  intro hswaps
  have hlayer : (spawn, 0) ∈ assignLayers Indep [complete, spawn] :=
    (hswaps.perm_assignLayers independent_symm).mem_iff.mp (by decide)
  exact absurd hlayer (by decide)

end Asupersync
