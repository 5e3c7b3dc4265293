import Mathlib.Init

/-!
# Code that may panic

The end of a piece of state-passing code: a value with the state it leaves, a
panic with the state it unwinds from, or no end within the fuel it was given.

**Results.**  `Ends Q P` says that the code ends, that `Q` holds of a value and
`P` of a panic.  `Ends.bind` is its rule for sequencing.
-/

namespace Asupersync
namespace Lib

universe u v w x

inductive Flow (σ : Type u) (ε : Type v) (α : Type w) where
  | ok (value : α) (state : σ)
  | panic (cause : ε) (state : σ)
  | outOfFuel

namespace Flow

variable {σ : Type u} {ε : Type v} {α : Type w} {β : Type x}

def bind (first : Flow σ ε α) (next : α → σ → Flow σ ε β) : Flow σ ε β :=
  match first with
  | .ok value state => next value state
  | .panic cause state => .panic cause state
  | .outOfFuel => .outOfFuel

/-- A loop over a list, stopped by a panic. -/
def forEach (body : β → σ → Flow σ ε Unit) : List β → σ → Flow σ ε Unit
  | [], state => .ok () state
  | item :: rest, state => (body item state).bind fun _ state => forEach body rest state

/-- The code ends, with `Q` of its value or with `P` of its panic. -/
def Ends (Q : α → σ → Prop) (P : ε → σ → Prop) : Flow σ ε α → Prop
  | .ok value state => Q value state
  | .panic cause state => P cause state
  | .outOfFuel => False

theorem Ends.mono {Q Q' : α → σ → Prop} {P P' : ε → σ → Prop} {flow : Flow σ ε α}
    (h : flow.Ends Q P) (hQ : ∀ value state, Q value state → Q' value state)
    (hP : ∀ cause state, P cause state → P' cause state) :
    flow.Ends Q' P' := by
  cases flow with
  | ok value state => exact hQ value state h
  | panic cause state => exact hP cause state h
  | outOfFuel => exact h

theorem Ends.bind {R : α → σ → Prop} {Q : β → σ → Prop} {P : ε → σ → Prop} {first : Flow σ ε α}
    {next : α → σ → Flow σ ε β} (h : first.Ends R P)
    (hnext : ∀ value state, R value state → (next value state).Ends Q P) :
    (first.bind next).Ends Q P := by
  cases first with
  | ok value state => exact hnext value state h
  | panic cause state | outOfFuel => exact h

end Flow

end Lib
end Asupersync
