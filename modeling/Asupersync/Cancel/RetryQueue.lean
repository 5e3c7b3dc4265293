import Asupersync.Lib.TransitionSystem

/-!
# Retrying failed cancel broadcasts

A broadcaster queues the messages whose broadcast failed.  A retry pass takes them from
the front and broadcasts each again, until the queue is empty or a broadcast fails; the
message is in no queue while its broadcast is pending.  What a message says plays no role.

**Results.**
* `retries_in_order`: the queue holds what has failed and has not been sent since, in the
  order of the failures, if no pass is dropped and no message comes in behind others while
  a retry fails.
* `retries_out_of_order`: the message that fails again is put behind older ones, and a
  pass that is dropped loses its message.
-/

namespace Asupersync

open Lib

universe u v

/-- A message whose broadcast failed.  The code does not number the failures. -/
structure FailedBroadcast (μ : Type u) where
  failure : Nat
  message : μ
deriving DecidableEq

/-- Where the pass stands that has set `retry_in_progress`. -/
inductive RetryPass (μ : Type u) where
  | idle
  | draining (retriedCount : Nat)
  | broadcasting (msg : FailedBroadcast μ) (originalQueueLen retriedCount : Nat)

/-- The retries of a broadcaster, what its passes have returned, and, which the code does not
keep, the messages that have failed and have not been sent since. -/
structure RetryState (μ : Type u) (ε : Type v) where
  pendingRetries : List (FailedBroadcast μ) := []
  retry : RetryPass μ := .idle
  returned : List (Nat × Option ε) := []
  failures : Nat := 0
  unsent : List (FailedBroadcast μ) := []

inductive RetryOp (μ : Type u) (ε : Type v) where
  | fail (msg : μ)
  | retryFailedBroadcasts
  | takeNext
  | sent
  | failAgain (err : ε)
  | dropRetry

variable {μ : Type u} {ε : Type v}

/-- The queue after the broadcast of `msg` has failed again. -/
def putBack (retries : List (FailedBroadcast μ)) (originalQueueLen : Nat)
    (msg : FailedBroadcast μ) : List (FailedBroadcast μ) :=
  if originalQueueLen < retries.length then retries.insertIdx originalQueueLen msg
  else msg :: retries

theorem putBack_eq_cons {retries : List (FailedBroadcast μ)} {len : Nat} {msg : FailedBroadcast μ}
    (h : len = 0 ∨ retries.length ≤ len) : putBack retries len msg = msg :: retries := by
  unfold putBack
  split
  next hlt =>
    obtain rfl : len = 0 := h.resolve_right (Nat.not_le.mpr hlt)
    rfl
  next => rfl

variable [DecidableEq μ]

namespace RetryState

def exec (s : RetryState μ ε) : RetryOp μ ε → Option (RetryState μ ε)
  -- The broadcast of `cancel` or of `handle_message` has failed.
  | .fail msg =>
    let entry := ⟨s.failures, msg⟩
    some { s with
      pendingRetries := s.pendingRetries ++ [entry]
      failures := s.failures + 1
      unsent := s.unsent ++ [entry] }
  | .retryFailedBroadcasts =>
    match s.retry with
    | .idle => some { s with retry := .draining 0 }
    | _ => some { s with returned := s.returned ++ [(0, none)] }
  | .takeNext =>
    match s.retry, s.pendingRetries with
    | .draining count, [] =>
      some { s with retry := .idle, returned := s.returned ++ [(count, none)] }
    | .draining count, msg :: retries =>
      some { s with pendingRetries := retries, retry := .broadcasting msg retries.length count }
    | _, _ => none
  | .sent =>
    match s.retry with
    | .broadcasting msg _ count =>
      some { s with retry := .draining (count + 1), unsent := s.unsent.erase msg }
    | _ => none
  | .failAgain err =>
    match s.retry with
    | .broadcasting msg len count =>
      some { s with
        pendingRetries := putBack s.pendingRetries len msg
        retry := .idle
        returned := s.returned ++ [(count, some err)] }
    | _ => none
  -- The guard resets the flag.
  | .dropRetry =>
    match s.retry with
    | .broadcasting _ _ _ => some { s with retry := .idle }
    | _ => none

/-- No pass is dropped, and where a retry fails, no message has come in since, or none was
queued then. -/
def undisturbed (s : RetryState μ ε) (op : RetryOp μ ε) : Bool :=
  match op, s.retry with
  | .failAgain _, .broadcasting _ len _ => len = 0 ∨ s.pendingRetries.length ≤ len
  | .dropRetry, _ => false
  | _, _ => true

/-- The queue holds what has not been sent, but for the message that is being sent. -/
def InOrder (s : RetryState μ ε) : Prop :=
  match s.retry with
  | .broadcasting msg _ _ => s.unsent = msg :: s.pendingRetries
  | _ => s.unsent = s.pendingRetries

end RetryState

/-- All interleavings of failing broadcasts and retry passes. -/
def retrySystem : TransitionSystem (RetryState μ ε) (RetryOp μ ε) where
  init s := s = {}
  step s op t := s.exec op = some t

/-- The interleavings in which every step is undisturbed. -/
def undisturbedRetries : TransitionSystem (RetryState μ ε) (RetryOp μ ε) where
  init s := s = {}
  step s op t := s.undisturbed op ∧ s.exec op = some t

theorem RetryState.InOrder.step {s t : RetryState μ ε} {op : RetryOp μ ε} (h : s.InOrder)
    (hcalm : s.undisturbed op) (hstep : s.exec op = some t) : t.InOrder := by
  obtain ⟨retries, retry, returned, failures, unsent⟩ := s
  cases op with
  | fail msg =>
    cases hstep
    cases retry <;> exact congrArg (· ++ [_]) h
  | retryFailedBroadcasts => cases retry <;> cases hstep <;> exact h
  | takeNext =>
    cases retry with
    | draining count => cases retries <;> cases hstep <;> exact h
    | _ => cases hstep
  | sent =>
    cases retry with
    | broadcasting msg len count =>
      cases hstep
      obtain rfl : unsent = msg :: retries := h
      exact List.erase_cons_head ..
    | _ => cases hstep
  | failAgain err =>
    cases retry with
    | broadcasting msg len count =>
      cases hstep
      exact h.trans (putBack_eq_cons (of_decide_eq_true hcalm)).symm
    | _ => cases hstep
  | dropRetry => cases hcalm

/-- The failed messages wait in the order of their failures, and none is lost. -/
theorem retries_in_order {s : RetryState μ ε} (hs : undisturbedRetries.Reachable s)
    (hidle : s.retry = .idle) : s.pendingRetries = s.unsent := by
  have h : s.InOrder := by
    refine hs.invariant (fun s hinit => ?_) fun _ _ _ h hstep => h.step hstep.1 hstep.2
    rw [hinit]
    rfl
  rw [RetryState.InOrder, hidle] at h
  exact h.symm

/-- A message comes in while the only one is sent again and fails. -/
theorem retries_in_order_of_two : ∃ s : RetryState Char Unit, undisturbedRetries.Reachable s ∧
    s.pendingRetries = [⟨0, 'a'⟩, ⟨1, 'b'⟩] ∧ s.pendingRetries = s.unsent := by
  obtain ⟨s, hrun, hidle, hqueue⟩ : ∃ s : RetryState Char Unit,
      [.fail 'a', .retryFailedBroadcasts, .takeNext, .fail 'b', .failAgain ()].foldlM
        (fun s op => if s.undisturbed op then s.exec op else none) {} = some s ∧
      s.retry = .idle ∧ s.pendingRetries = [⟨0, 'a'⟩, ⟨1, 'b'⟩] := ⟨_, rfl, rfl, rfl⟩
  have hs : undisturbedRetries.Reachable s :=
    ⟨{}, _, rfl, .of_foldlM (fun _ _ _ => Option.ite_none_right_eq_some.mp) _ hrun⟩
  exact ⟨s, hs, hqueue, retries_in_order hs hidle⟩

/-- A message comes in while the first of two is sent again, and the first becomes the second;
and a message is lost with its pass. -/
theorem retries_out_of_order :
    (∃ s : RetryState Char Unit, retrySystem.Reachable s ∧ s.retry = .idle ∧
      s.unsent = [⟨0, 'a'⟩, ⟨1, 'b'⟩, ⟨2, 'c'⟩] ∧
      s.pendingRetries = [⟨1, 'b'⟩, ⟨0, 'a'⟩, ⟨2, 'c'⟩]) ∧
    ∃ s : RetryState Char Unit, retrySystem.Reachable s ∧ s.retry = .idle ∧
      s.unsent = [⟨0, 'a'⟩] ∧ s.pendingRetries = [] := by
  have hrun : ∀ (ops : List (RetryOp Char Unit)) s, ops.foldlM RetryState.exec {} = some s →
      retrySystem.Reachable s := fun ops _ h => ⟨{}, ops, rfl, .of_foldlM (fun _ _ _ h => h) _ h⟩
  exact ⟨⟨_, hrun [.fail 'a', .fail 'b', .retryFailedBroadcasts, .takeNext, .fail 'c',
      .failAgain ()] _ rfl, rfl, rfl, rfl⟩,
    ⟨_, hrun [.fail 'a', .retryFailedBroadcasts, .takeNext, .dropRetry] _ rfl, rfl, rfl, rfl⟩⟩

end Asupersync
