import Mathlib.Data.List.Basic

/-!
# Computations with fuel

A recursion without a guard of its own is written with an amount of fuel that
bounds its depth; it gives `none` where the fuel runs out.  Such a computation
settles on a value when every large enough amount of fuel gives that value, and
it runs forever when no amount of fuel is enough.

The rules below compose settled computations the way the computations
themselves are composed, so a termination argument needs no explicit bound.
-/

namespace Asupersync.Lib.Fuel

open Option

universe u

variable {α β : Type u}

/-- Every large enough amount of fuel gives `a`. -/
def Settles (f : Nat → Option α) (a : α) : Prop :=
  ∃ bound, ∀ fuel, bound ≤ fuel → f fuel = some a

/-- The computation settles on some value. -/
def Returns (f : Nat → Option α) : Prop := ∃ a, Settles f a

/-- No amount of fuel is enough. -/
def Diverges (f : Nat → Option α) : Prop := ∀ fuel, f fuel = none

theorem settles_some (a : α) : Settles (fun _ => some a) a :=
  ⟨0, fun _ _ => rfl⟩

theorem returns_some (a : α) : Returns (fun _ => some a) := ⟨a, settles_some a⟩

variable {f : Nat → Option α} {a : α}

/-- Two settled computations settle together. -/
theorem Settles.both {g : Nat → Option β} {b : β} (hf : Settles f a) (hg : Settles g b) :
    ∃ bound, ∀ fuel, bound ≤ fuel → f fuel = some a ∧ g fuel = some b := by
  obtain ⟨m, hm⟩ := hf
  obtain ⟨n, hn⟩ := hg
  refine ⟨max m n, fun fuel hfuel => ⟨hm fuel ?_, hn fuel ?_⟩⟩
  · exact Nat.le_trans (Nat.le_max_left m n) hfuel
  · exact Nat.le_trans (Nat.le_max_right m n) hfuel

theorem Settles.unique {b : α} (ha : Settles f a) (hb : Settles f b) : a = b := by
  obtain ⟨bound, hboth⟩ := ha.both hb
  obtain ⟨hfa, hfb⟩ := hboth bound (Nat.le_refl bound)
  exact some.inj (hfa.symm.trans hfb)

variable {k : Nat → α → Option β}

theorem Settles.bind {b : β} (hf : Settles f a) (hk : Settles (fun fuel => k fuel a) b) :
    Settles (fun fuel => f fuel >>= k fuel) b := by
  obtain ⟨bound, hboth⟩ := hf.both hk
  refine ⟨bound, fun fuel hfuel => ?_⟩
  obtain ⟨hfa, hkb⟩ := hboth fuel hfuel
  show f fuel >>= k fuel = some b
  rw [hfa]
  exact hkb

/-- Every large enough amount of fuel gives some value. -/
def Defined (f : Nat → Option α) : Prop := ∃ bound, ∀ fuel, bound ≤ fuel → (f fuel).isSome

theorem Settles.defined (h : Settles f a) : Defined f := by
  obtain ⟨bound, ha⟩ := h
  exact ⟨bound, fun fuel hfuel => isSome_iff_exists.mpr ⟨a, ha fuel hfuel⟩⟩

theorem Defined.exists_some (h : Defined f) : ∃ fuel a, f fuel = some a := by
  obtain ⟨bound, hsome⟩ := h
  exact ⟨bound, isSome_iff_exists.mp (hsome bound (Nat.le_refl bound))⟩

/-- The first part of a sequence that has a value has one. -/
theorem Defined.of_bind (h : Defined (fun fuel => f fuel >>= k fuel)) : Defined f := by
  obtain ⟨bound, hsome⟩ := h
  refine ⟨bound, fun fuel hfuel => ?_⟩
  obtain ⟨b, hb⟩ := isSome_iff_exists.mp (hsome fuel hfuel)
  obtain ⟨a, ha, -⟩ := bind_eq_some_iff.mp hb
  exact isSome_iff_exists.mpr ⟨a, ha⟩

/-- So has the second part, at the value the first part settles on. -/
theorem Defined.continue (h : Defined (fun fuel => f fuel >>= k fuel)) (hf : Settles f a) :
    Defined (fun fuel => k fuel a) := by
  obtain ⟨m, hm⟩ := h
  obtain ⟨n, hn⟩ := hf
  refine ⟨max m n, fun fuel hfuel => ?_⟩
  have hsome := hm fuel (Nat.le_trans (Nat.le_max_left m n) hfuel)
  have ha := hn fuel (Nat.le_trans (Nat.le_max_right m n) hfuel)
  dsimp only at hsome
  rw [ha] at hsome
  exact hsome

variable {g : Nat → Option α}

/-- A recursive call spends one unit of fuel. -/
theorem Settles.of_succ (step : ∀ fuel, f (fuel + 1) = g fuel) (h : Settles g a) : Settles f a := by
  obtain ⟨bound, hg⟩ := h
  refine ⟨bound + 1, fun fuel hfuel => ?_⟩
  obtain ⟨fuel, rfl⟩ := Nat.exists_eq_succ_of_ne_zero (Nat.ne_of_gt (Nat.lt_of_lt_of_le
    (Nat.succ_pos bound) hfuel))
  rw [Nat.succ_eq_add_one, step]
  exact hg fuel (Nat.le_of_succ_le_succ hfuel)

theorem Settles.congr (h : Settles g a) (heq : ∀ fuel, f fuel = g fuel) : Settles f a := by
  obtain ⟨bound, hg⟩ := h
  exact ⟨bound, fun fuel hfuel => (heq fuel).trans (hg fuel hfuel)⟩

theorem Returns.bind (hf : Returns f) (hk : ∀ a, Returns (fun fuel => k fuel a)) :
    Returns (fun fuel => f fuel >>= k fuel) := by
  obtain ⟨a, ha⟩ := hf
  obtain ⟨b, hb⟩ := hk a
  exact ⟨b, ha.bind hb⟩

theorem Returns.of_succ (step : ∀ fuel, f (fuel + 1) = g fuel) (h : Returns g) : Returns f := by
  obtain ⟨a, ha⟩ := h
  exact ⟨a, ha.of_succ step⟩

/-- A loop returns when its body returns on every element, from every state. -/
theorem Returns.foldlM {σ : Type u} {α : Type*} {step : Nat → σ → α → Option σ} {xs : List α}
    (body : ∀ x ∈ xs, ∀ s, Returns (fun fuel => step fuel s x)) (s : σ) :
    Returns (fun fuel => xs.foldlM (step fuel) s) := by
  induction xs generalizing s with
  | nil => exact returns_some s
  | cons x rest ih =>
    have hrest : ∀ s, Returns (fun fuel => rest.foldlM (step fuel) s) :=
      fun s => ih (fun y hy => body y (List.mem_cons_of_mem x hy)) s
    exact Returns.bind (body x List.mem_cons_self s) hrest

theorem Returns.allM {α : Type*} {test : Nat → α → Option Bool} {xs : List α}
    (body : ∀ x ∈ xs, Returns (fun fuel => test fuel x)) :
    Returns (fun fuel => xs.allM (test fuel)) := by
  induction xs with
  | nil => exact returns_some true
  | cons x rest ih =>
    have hrest : Returns (fun fuel => rest.allM (test fuel)) :=
      ih fun y hy => body y (List.mem_cons_of_mem x hy)
    refine Returns.bind (body x List.mem_cons_self) fun accepted => ?_
    cases accepted with
    | false => exact returns_some false
    | true => exact hrest

/-- Sequencing computations that may also fail with an error. -/
theorem Returns.exceptBind {ε : Type u} {f : Nat → ExceptT ε Option α}
    {k : Nat → α → ExceptT ε Option β} (hf : Returns (fun fuel => (f fuel).run))
    (hk : ∀ a, Returns (fun fuel => (k fuel a).run)) :
    Returns (fun fuel => (f fuel >>= k fuel).run) := by
  refine Returns.bind hf fun outcome => ?_
  cases outcome with
  | error e => exact returns_some (Except.error e)
  | ok a => exact hk a

end Asupersync.Lib.Fuel
