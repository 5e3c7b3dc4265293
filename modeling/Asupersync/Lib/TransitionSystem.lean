import Mathlib.Data.List.Basic

/-!
# Labelled transition systems

Runs of a labelled transition system and the induction rules for them.  A label
carries what a step was asked to do together with what it answered, so a run is
described by its list of labels, oldest first.

**Results.**
* `Run.history_induction`: a predicate of the labels so far and the current
  state that holds at the start and is kept by every step holds along the run.
* `Run.invariant`, `Reachable.invariant`: the same for predicates of the state.
* `Run.append`: runs compose.
* `Run.of_foldlM`: a computed run is a run.
* `bind_ite_eq_some_iff`: when a guarded step is possible.
* `snoc_cases`: what lies in a history that has grown by one.
-/

namespace Asupersync

open Option
namespace Lib

universe u v

/-- An entry of a list that has grown by one is the new one, or was there before. -/
theorem snoc_cases {α : Type u} {l xs ys : List α} {a b : α} (h : l ++ [b] = xs ++ a :: ys) :
    (xs = l ∧ a = b ∧ ys = []) ∨ ∃ ys', ys = ys' ++ [b] ∧ l = xs ++ a :: ys' := by
  rcases List.eq_nil_or_concat' ys with rfl | ⟨ys', last, rfl⟩
  · obtain ⟨rfl, hlast⟩ := List.append_inj' h rfl
    exact .inl ⟨rfl, (List.singleton_inj.mp hlast).symm, rfl⟩
  · rw [← List.cons_append, ← List.append_assoc] at h
    obtain ⟨rfl, hlast⟩ := List.append_inj' h rfl
    exact .inr ⟨ys', by rw [hlast], rfl⟩

/-- A set of initial states and a labelled step relation. -/
structure TransitionSystem (σ : Type u) (α : Type v) where
  init : σ → Prop
  step : σ → α → σ → Prop

namespace TransitionSystem

variable {σ : Type u} {α : Type v}

/-- `Run T s as t`: the labels `as` lead from `s` to `t`. -/
inductive Run (T : TransitionSystem σ α) (s : σ) : List α → σ → Prop
  | nil : Run T s [] s
  | snoc {as : List α} {t u : σ} {a : α} :
      Run T s as t → T.step t a u → Run T s (as ++ [a]) u

/-- The states some run reaches from an initial state. -/
def Reachable (T : TransitionSystem σ α) (t : σ) : Prop :=
  ∃ s as, T.init s ∧ T.Run s as t

variable {T : TransitionSystem σ α} {s t : σ}

/-- The induction rule for predicates of history and state. -/
theorem Run.history_induction {I : List α → σ → Prop} {as : List α} (h : T.Run s as t)
    (hstart : I [] s)
    (hstep : ∀ bs u a u', T.Run s bs u → I bs u → T.step u a u' → I (bs ++ [a]) u') :
    I as t := by
  induction h with
  | nil => exact hstart
  | snoc hrun hlast ih => exact hstep _ _ _ _ hrun ih hlast

/-- The induction rule for predicates of the state. -/
theorem Run.invariant {I : σ → Prop} {as : List α} (h : T.Run s as t) (hstart : I s)
    (hstep : ∀ u a u', I u → T.step u a u' → I u') :
    I t :=
  h.history_induction (I := fun _ => I) hstart fun _ u a u' _ hu hlast => hstep u a u' hu hlast

/-- What holds initially and is kept by every step holds in every reachable state. -/
theorem Reachable.invariant {I : σ → Prop} {t : σ} (h : T.Reachable t) (hinit : ∀ s, T.init s → I s)
    (hstep : ∀ u a u', I u → T.step u a u' → I u') :
    I t := by
  obtain ⟨s, as, hs, hrun⟩ := h
  exact hrun.invariant (hinit s hs) hstep

theorem Run.append {s t u : σ} {as bs : List α} (hst : T.Run s as t) (htu : T.Run t bs u) :
    T.Run s (as ++ bs) u := by
  induction htu with
  | nil => simpa using hst
  | snoc _ hlast ih =>
    rw [← List.append_assoc]
    exact ih.snoc hlast

theorem Run.single {a : α} (h : T.step s a t) : T.Run s [a] t :=
  Run.snoc Run.nil h

/-- Where the steps are those of a function, folding the function over labels runs them. -/
theorem Run.of_foldlM {exec : σ → α → Option σ} (hexec : ∀ s a t, exec s a = some t → T.step s a t)
    (as : List α) (h : as.foldlM exec s = some t) :
    T.Run s as t := by
  induction as generalizing s with
  | nil =>
    cases h
    exact Run.nil
  | cons a as ih =>
    rw [List.foldlM_cons, bind_eq_bind, bind_eq_some_iff] at h
    obtain ⟨u, hu, hrest⟩ := h
    exact (Run.single (hexec s a u hu)).append (ih hrest)

end TransitionSystem

/-- The result of a step that looks something up and then checks that it is possible. -/
theorem bind_ite_eq_some_iff
    {α : Type u} {β : Type u} {x : Option α} {p : α → Prop} [DecidablePred p] {f : α → β} {b : β} :
    (do let a ← x; if p a then some (f a) else none) = some b ↔ ∃ a, x = some a ∧ p a ∧ f a = b := by
  rw [bind_eq_bind, bind_eq_some_iff]
  refine exists_congr fun a => and_congr_right fun _ => ?_
  rw [ite_none_right_eq_some, some.injEq]

theorem getElem?_concat_cases {α : Type u} {xs : List α} {x y : α} {i : Nat}
    (h : (xs ++ [x])[i]? = some y) : xs[i]? = some y ∨ i = xs.length ∧ x = y := by
  grind

end Lib
end Asupersync
