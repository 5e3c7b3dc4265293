import Asupersync.Channel.WatchClosed

/-!
# The order of the updates of a watch channel

The calls of `send` and `send_modify` should publish what they would publish one after
another.  But `send_modify` reads the value, runs its closure without a lock and writes the
result back, so an update that is published in between is lost.  In every run in which
nothing is published while another `send_modify` stands between its read and its write, the
calls behave as if each of them ran where it publishes.
-/

namespace Asupersync
namespace Watch

open Lib

variable {α : Type}

/-- What a call of the sender does to the value. -/
inductive Update (α : Type) where
  | send (value : α)
  | modify (f : α → α)

namespace Update

def apply : Update α → α → α
  | send value, _ => value
  | modify f, value => f value

def op : Update α → Op α
  | send value => .send value
  | modify f => .sendModify f

end Update

/-- A channel, and what has been published on it: the number of the call, the value and the
version, oldest first. -/
structure Published (α : Type) where
  system : System α
  log : List (Nat × α × UInt64)

/-- The next call starts, or a call takes its next step. -/
def Published.step (updates : Nat → Update α) (p : Published α) : Option Nat → Option (Published α)
  | none => (p.system.exec (updates p.system.calls.length).op).map fun s => { p with system := s }
  | some c =>
    (p.system.exec (.stepSender c)).map fun s =>
      { system := s
        log := if p.system.publishing (.stepSender c) then p.log ++ [(c, s.inner.value)] else p.log }

/-- All interleavings of calls on a channel, where call `c` makes the update `updates c`. -/
def updateSystem (updates : Nat → Update α) (start : α × UInt64) :
    TransitionSystem (Published α) (Option Nat) where
  init p := p.system.calls = [] ∧ p.system.inner.value = start ∧ p.log = []
  step p c p' := p.step updates c = some p'

/-- No other `send_modify` stands between its read and its write when a call publishes. -/
def Published.Undisturbed (updates : Nat → Update α) (p : Published α) (c : Option Nat) : Prop :=
  ∀ i, c = some i → p.system.publishing (.stepSender i) = true →
    ∀ j value, j ≠ i → p.system.calls[j]? = some (.write value) → ∃ v, updates j = .send v

/-- The interleavings in which no `send_modify` is disturbed. -/
def undisturbedSystem (updates : Nat → Update α) (start : α × UInt64) :
    TransitionSystem (Published α) (Option Nat) where
  init := (updateSystem updates start).init
  step p c p' := p.step updates c = some p' ∧ p.Undisturbed updates c

/-- The calls of the log run one after another, each once, and leave the last pair. -/
inductive Sequential (updates : Nat → Update α) (start : α × UInt64) :
    List (Nat × α × UInt64) → α × UInt64 → Prop
  | nil : Sequential updates start [] start
  | snoc {log : List (Nat × α × UInt64)} {value : α} {version : UInt64} {c : Nat} :
      Sequential updates start log (value, version) → c ∉ log.map Prod.fst →
      Sequential updates start (log ++ [(c, (updates c).apply value, version + 1)])
        ((updates c).apply value, version + 1)

/-- What is known about call `c`: it has published, or it will publish its update of the value
that is there. -/
def Published.Due (updates : Nat → Update α) (p : Published α) (c : Nat) :
    Option (SenderCall α) → Prop
  | none => c ∉ p.log.map Prod.fst
  | some (.read f) => updates c = .modify f ∧ c ∉ p.log.map Prod.fst
  | some (.write next) =>
    next = (updates c).apply p.system.inner.value.1 ∧ c ∉ p.log.map Prod.fst
  | some _ => True

/-- What the proof keeps true along a run. -/
structure Ordered (updates : Nat → Update α) (start : α × UInt64) (p : Published α) : Prop where
  sequential : Sequential updates start p.log p.system.inner.value
  due : ∀ c, p.Due updates c p.system.calls[c]?

section Order

variable {updates : Nat → Update α} {start : α × UInt64} {p p' : Published α} {c : Nat}
  {s : System α}

/-- A call moves on and publishes nothing. -/
theorem Ordered.move {next : SenderCall α} (h : Ordered updates start p)
    (hcalls : ∀ i, s.calls[i]? = if i = c then some next else p.system.calls[i]?)
    (hvalue : s.inner.value = p.system.inner.value) (hnext : p.Due updates c (some next)) :
    Ordered updates start ⟨s, p.log⟩ := by
  refine ⟨hvalue ▸ h.sequential, fun i => ?_⟩
  have hdue : p.Due updates i s.calls[i]? := by
    rw [hcalls]
    split
    next hi => exact hi ▸ hnext
    next hi => exact h.due i
  unfold Published.Due at hdue ⊢
  rwa [← hvalue] at hdue

/-- A call publishes, and no other call has read the value that it replaces. -/
theorem Ordered.publish {value : α} (h : Ordered updates start p)
    (hcall : p.system.calls[c]? = some (.write value))
    (hcalm : ∀ j value, j ≠ c → p.system.calls[j]? = some (.write value) → ∃ v, updates j = .send v)
    (hvalue : s.inner.value = (value, p.system.inner.value.2 + 1))
    (hcalls : ∀ i, s.calls[i]? = if i = c then some .count else p.system.calls[i]?) :
    Ordered updates start ⟨s, p.log ++ [(c, s.inner.value)]⟩ := by
  refine ⟨?_, fun i => ?_⟩
  · obtain ⟨rfl, hfresh⟩ := hcall ▸ h.due c
    rw [hvalue]
    exact h.sequential.snoc hfresh
  rw [hcalls]
  split
  next => trivial
  next hi =>
    have hlog : i ∉ p.log.map Prod.fst → i ∉ (p.log ++ [(c, s.inner.value)]).map Prod.fst := by
      simp [hi]
    have hdue := h.due i
    rcases hother : p.system.calls[i]? with - | call
    all_goals rw [hother] at hdue
    · exact hlog hdue
    cases call with
    | read f => exact ⟨hdue.1, hlog hdue.2⟩
    | write next =>
      obtain ⟨v, hv⟩ := hcalm i next hi hother
      refine ⟨hdue.1.trans ?_, hlog hdue.2⟩
      rw [hv]
      rfl
    | _ => trivial

theorem Ordered.step {op : Option Nat} (h : Ordered updates start p)
    (hstep : p.step updates op = some p') (hcalm : p.Undisturbed updates op) :
    Ordered updates start p' := by
  cases op with
  | none =>
    obtain ⟨s, hexec, rfl⟩ := Option.map_eq_some_iff.mp hstep
    have hfresh := h.due p.system.calls.length
    rw [List.getElem?_eq_none le_rfl] at hfresh
    have hconcat : ∀ call i, (p.system.calls ++ [call])[i]? =
        if i = p.system.calls.length then some call else p.system.calls[i]? := by
      grind
    cases hupdate : updates p.system.calls.length with
    | send value | modify f =>
      rw [hupdate] at hexec
      obtain ⟨-, hexec⟩ := Option.ite_none_left_eq_some.mp hexec
      cases hexec
      exact h.move (hconcat _) rfl ⟨hupdate ▸ rfl, hfresh⟩
  | some c =>
    obtain ⟨s, hexec, rfl⟩ := Option.map_eq_some_iff.mp hstep
    obtain ⟨call, hcall, ⟨⟩⟩ := Option.bind_eq_some_iff.mp hexec
    have hset : ∀ next i, (p.system.calls.set c next)[i]? =
        if i = c then some next else p.system.calls[i]? := by
      grind
    have hdue := hcall ▸ h.due c
    have hcalm := hcalm c rfl
    rw [System.publishing, hcall] at hcalm ⊢
    cases call with
    | write value => exact h.publish hcall (hcalm rfl) rfl (hset _)
    | read f => exact h.move (hset _) rfl ⟨by rw [hdue.1]; rfl, hdue.2⟩
    | count =>
      refine h.move (hset _) rfl ?_
      split <;> trivial
    | take | wake waiter waiters => exact h.move (hset _) rfl trivial
    | notify waiters => cases waiters <;> exact h.move (hset _) rfl trivial
    | done => exact h

end Order

end Watch
end Asupersync
