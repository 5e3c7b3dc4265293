import Asupersync.Channel.Watch

/-!
# A receiver that finds its channel closed

A receiver should have seen the last version when `changed` says that the channel is
closed.  A poll that finds the sender gone at first looks at the version once more.  After
it has registered, it looks at the version and then at the sender: a value that is
published in between, by a sender that then goes, is missed.  In every run in which nothing
is published while a poll stands between these two looks, the receiver has seen the last
version.
-/

namespace Asupersync
namespace Watch

open Lib List Option

variable {α : Type} {receiver : Receiver}

/-- A call that still publishes a value. -/
def SenderCall.publishes : SenderCall α → Bool
  | .read _ | .write _ => true
  | _ => false

/-- What a receiver knows about the channel where it may go on to find it closed. -/
def Receiver.Informed (inner : WatchInner α) (receiver : Receiver) : Prop :=
  match receiver.changed with
  | some (.polling .versionOfDropped _) => inner.senderDropped = true
  | some (.polling .droppedAgain _) => receiver.seenVersion = inner.value.2
  | some (.completed (.error .closed)) =>
    inner.senderDropped = true ∧ receiver.seenVersion = inner.value.2
  | _ => True

/-- Whether the poll of a receiver has looked at the version and not yet at the sender. -/
def Receiver.BetweenLooks (receiver : Receiver) : Prop :=
  ∃ waker, receiver.changed = some (.polling .droppedAgain waker)

/-- The knowledge of a receiver lasts while the version does. -/
theorem Receiver.Informed.of_version {inner inner' : WatchInner α} (h : receiver.Informed inner)
    (hdropped : inner.senderDropped = true → inner'.senderDropped = true)
    (hversion : receiver.BetweenLooks ∨ inner.senderDropped = true →
      inner'.value.2 = inner.value.2) :
    receiver.Informed inner' := by
  unfold Informed at h ⊢
  split at h
  · exact hdropped h
  · exact h.trans (hversion (.inl ⟨_, ‹_›⟩)).symm
  · exact ⟨hdropped h.1, h.2.trans (hversion (.inr h.1)).symm⟩
  · trivial

namespace System

variable {s s' : System α} {op : Op α}

/-- Whether a step publishes a value. -/
def publishing (s : System α) : Op α → Bool
  | .stepSender c =>
    match s.calls[c]? with
    | some (.write _) => true
    | _ => false
  | _ => false

theorem exists_of_publishing (h : s.publishing op = true) :
    ∃ c value, op = .stepSender c ∧ s.calls[c]? = some (.write value) := by
  cases op with
  | stepSender c =>
    rw [publishing] at h
    split at h
    · exact ⟨c, _, rfl, ‹_›⟩
    · cases h
  | _ => cases h

/-- When the sender is gone, no call publishes any more. -/
def Quiet (s : System α) : Prop :=
  s.inner.senderDropped = true → ∀ call ∈ s.calls, call.publishes = false

/-- What a step may change. -/
structure Keeps (s s' : System α) (publishing : Bool) : Prop where
  value : publishing = false → s'.inner.value = s.inner.value
  dropped : s.inner.senderDropped = true → s'.inner.senderDropped = true
  quiet : s.Quiet → s'.Quiet
  receivers : (∀ receiver ∈ s.receivers, receiver.Informed s.inner) →
    ∀ receiver ∈ s'.receivers, receiver.Informed s.inner

section Receivers

variable {count : Nat} {waiters : List WatchWaiter} {publishing : Bool}

theorem Keeps.setReceiver {r : Nat}
    (hinformed : (∀ other ∈ s.receivers, other.Informed s.inner) → receiver.Informed s.inner) :
    Keeps s ({ s with inner := { s.inner with
      receiverCount := count, waiters := waiters } }.setReceiver r receiver) publishing where
  value _ := rfl
  dropped := id
  quiet := id
  receivers hall other hother := by
    rcases mem_or_eq_of_mem_set hother with hother | rfl
    · exact hall other hother
    · exact hinformed hall

theorem Keeps.addReceiver {version : UInt64} :
    Keeps s { s with
      inner := { s.inner with receiverCount := count }
      receivers := s.receivers ++ [.new version] } publishing where
  value _ := rfl
  dropped := id
  quiet := id
  receivers hall other hother := by
    rcases mem_append.mp hother with hother | hother
    · exact hall other hother
    · cases mem_singleton.mp hother
      trivial

end Receivers

theorem Quiet.set {c : Nat} {call next : SenderCall α} (hquiet : s.Quiet) (hcall : call ∈ s.calls)
    (hdropped : s'.inner.senderDropped = s.inner.senderDropped)
    (hcalls : s'.calls = s.calls.set c next)
    (hnext : call.publishes = false → next.publishes = false) : s'.Quiet := by
  intro hgone other hother
  rw [hdropped] at hgone
  rw [hcalls] at hother
  rcases mem_or_eq_of_mem_set hother with hother | rfl
  · exact hquiet hgone other hother
  · exact hnext (hquiet hgone call hcall)

theorem stepCall_keeps {c : Nat} {call : SenderCall α} (hcall : s.calls[c]? = some call) :
    Keeps s (s.stepCall c call) (s.publishing (.stepSender c)) := by
  have hmem := mem_of_getElem? hcall
  cases call with
  | read f => exact ⟨fun _ => rfl, id, fun hquiet => hquiet.set hmem rfl rfl id, id⟩
  | write value =>
    refine ⟨fun hnone => ?_, id, fun hquiet => hquiet.set hmem rfl rfl fun _ => rfl, id⟩
    rw [publishing, hcall] at hnone
    cases hnone
  | count =>
    refine ⟨fun _ => rfl, id, fun hquiet => hquiet.set hmem rfl rfl fun _ => ?_, id⟩
    split <;> rfl
  | take | wake waiter waiters =>
    exact ⟨fun _ => rfl, id, fun hquiet => hquiet.set hmem rfl rfl fun _ => rfl, id⟩
  | notify waiters =>
    cases waiters with
    | nil => exact ⟨fun _ => rfl, id, fun hquiet => hquiet.set hmem rfl rfl fun _ => rfl, id⟩
    | cons waiter waiters =>
      refine ⟨fun _ => rfl, id, fun hquiet => hquiet.set hmem rfl rfl fun _ => rfl,
        fun hall receiver hreceiver => ?_⟩
      obtain ⟨i, hi⟩ := mem_iff_getElem?.mp hreceiver
      simp only [stepCall, getElem?_modify, Option.map_eq_map, map_eq_some_iff] at hi
      obtain ⟨old, hold, rfl⟩ := hi
      have hinformed := hall old (mem_of_getElem? hold)
      split <;> exact hinformed
  | done => exact ⟨fun _ => rfl, id, id, id⟩

/-- A step of a poll leaves its receiver informed. -/
theorem informed_pollChanged {r : Nat} {waker : Waker} {next : ChangedStep}
    (hnext : receiver.changed = some (.polling next waker))
    (hinformed : receiver.Informed s.inner) :
    (s.pollChanged r receiver waker next).2.Informed s.inner := by
  unfold Receiver.Informed at hinformed
  rw [hnext] at hinformed
  cases next with
  | version | flag | refresh =>
    simp only [pollChanged]
    split <;> trivial
  | dropped =>
    simp only [pollChanged]
    split
    · assumption
    · trivial
  | versionOfDropped =>
    simp only [pollChanged]
    split
    · trivial
    · rename_i hsame
      exact ⟨hinformed, (not_not.mp hsame).symm⟩
  | register => trivial
  | versionAgain =>
    simp only [pollChanged]
    split
    · trivial
    · rename_i hsame
      exact (not_not.mp hsame).symm
  | droppedAgain =>
    simp only [pollChanged]
    split
    · rename_i hgone
      exact ⟨hgone, hinformed⟩
    · trivial

theorem exec_keeps (hexec : s.exec op = some s') : Keeps s s' (s.publishing op) := by
  cases op with
  | send value | sendModify f =>
    obtain ⟨hhere, hexec⟩ := ite_none_left_eq_some.mp hexec
    cases hexec
    exact ⟨fun _ => rfl, id, fun _ hgone => absurd hgone hhere, id⟩
  | dropSender =>
    obtain ⟨hidle, hexec⟩ := ite_none_right_eq_some.mp hexec
    cases hexec
    rw [Bool.and_eq_true, Bool.not_eq_true', List.all_eq_true] at hidle
    refine ⟨fun _ => rfl, fun _ => rfl, fun _ _ call hcall => ?_, id⟩
    rcases mem_append.mp hcall with hcall | hcall
    · have hdone := hidle.2 call hcall
      cases call <;> first | rfl | cases hdone
    · cases mem_singleton.mp hcall
      rfl
  | stepSender c =>
    obtain ⟨call, hcall, ⟨⟩⟩ := bind_eq_some_iff.mp hexec
    exact stepCall_keeps hcall
  | subscribe =>
    obtain ⟨-, hexec⟩ := ite_none_left_eq_some.mp hexec
    cases hexec
    exact .addReceiver
  | clone r =>
    obtain ⟨receiver, -, -, rfl⟩ := bind_ite_eq_some_iff.mp hexec
    exact .addReceiver
  | markSeen r | dropReceiver r | changed r =>
    obtain ⟨receiver, -, hfree, rfl⟩ := bind_ite_eq_some_iff.mp hexec
    refine .setReceiver fun _ => ?_
    have hnone := isNone_iff_eq_none.mp (Bool.and_eq_true_iff.mp hfree).2
    simp [Receiver.Informed, Receiver.update, hnone]
  | poll r waker cancelled =>
    obtain ⟨receiver, -, hexec⟩ := bind_eq_some_iff.mp hexec
    split at hexec <;> cases hexec
    · refine .setReceiver fun _ => ?_
      split <;> trivial
    · refine .setReceiver fun _ => ?_
      split <;> trivial
    · exact ⟨fun _ => rfl, id, id, id⟩
  | stepPoll r =>
    obtain ⟨receiver, hreceiver, hexec⟩ := bind_eq_some_iff.mp hexec
    split at hexec
    · rename_i hnext
      cases hexec
      exact .setReceiver fun hall =>
        informed_pollChanged hnext (hall receiver (mem_of_getElem? hreceiver))
    · cases hexec
  | dropChanged r =>
    obtain ⟨receiver, -, hexec⟩ := bind_eq_some_iff.mp hexec
    split at hexec <;> cases hexec
    exact .setReceiver fun _ => trivial

/-- What the proof keeps true along a run. -/
structure Inv (s : System α) : Prop where
  quiet : s.Quiet
  informed : ∀ receiver ∈ s.receivers, receiver.Informed s.inner

theorem Inv.exec (h : Inv s) (hexec : s.exec op = some s')
    (hcalm : s.publishing op = true → ∀ receiver ∈ s.receivers, ¬ receiver.BetweenLooks) :
    Inv s' := by
  have hkeeps := exec_keeps hexec
  refine ⟨hkeeps.quiet h.quiet, fun receiver hreceiver => ?_⟩
  refine (hkeeps.receivers h.informed receiver hreceiver).of_version hkeeps.dropped fun hlook => ?_
  cases hpublishing : s.publishing op with
  | false => rw [hkeeps.value hpublishing]
  | true =>
    -- nobody looks away from the version, and the sender is still there
    obtain ⟨c, value, rfl, hcall⟩ := exists_of_publishing hpublishing
    rw [System.exec, hcall] at hexec
    cases hexec
    rcases hlook with hlook | hgone
    · exact absurd hlook (hcalm hpublishing receiver hreceiver)
    · cases h.quiet hgone _ (mem_of_getElem? hcall)

end System

/-- The runs in which nothing is published while a poll stands between its last look at the
version and its last look at the sender. -/
def calmWatchSystem (initial : α) : TransitionSystem (System α) (Op α) where
  init := (watchSystem initial).init
  step s op s' := (watchSystem initial).step s op s' ∧
    (s.publishing op = true → ∀ receiver ∈ s.receivers, ¬ receiver.BetweenLooks)

/-- When `changed` says that the channel is closed, its receiver has seen the last version. -/
theorem closed_receiver_saw_last_version {initial : α} {s : System α} {receiver : Receiver}
    (hs : (calmWatchSystem initial).Reachable s) (hreceiver : receiver ∈ s.receivers)
    (hclosed : receiver.changed = some (.completed (.error .closed)))
    {ops : List (Op α)} {t : System α} (hrun : (watchSystem initial).Run s ops t) :
    receiver.seenVersion = t.inner.value.2 := by
  have h : s.Inv := by
    refine hs.invariant ?_ fun s op s' h hstep => h.exec hstep.1 hstep.2
    rintro s rfl
    refine ⟨nofun, fun receiver hreceiver => ?_⟩
    cases mem_singleton.mp hreceiver
    trivial
  have hinformed := h.informed receiver hreceiver
  rw [Receiver.Informed, hclosed] at hinformed
  obtain ⟨hgone, hseen⟩ := hinformed
  -- no call publishes after the sender is gone
  have hlast : t.Quiet ∧ t.inner.senderDropped = true ∧ t.inner.value = s.inner.value := by
    refine hrun.invariant (I := fun t => t.Quiet ∧ t.inner.senderDropped = true ∧
      t.inner.value = s.inner.value) ⟨h.quiet, hgone, rfl⟩ ?_
    rintro u op u' ⟨hquiet, hgone, hvalue⟩ hexec
    have hkeeps := System.exec_keeps hexec
    refine ⟨hkeeps.quiet hquiet, hkeeps.dropped hgone, (hkeeps.value ?_).trans hvalue⟩
    refine Bool.eq_false_iff.mpr fun hpublishing => ?_
    obtain ⟨c, value, -, hcall⟩ := System.exists_of_publishing hpublishing
    cases hquiet hgone _ (mem_of_getElem? hcall)
  rw [hseen, hlast.2.2]

/-- The sender goes, and a poll finds the channel closed. -/
theorem closed_receiver_saw_last_version_unused : ∃ (s : System Nat) (receiver : Receiver),
    (calmWatchSystem 0).Reachable s ∧ receiver ∈ s.receivers ∧
    receiver.changed = some (.completed (.error .closed)) ∧
    receiver.seenVersion = s.inner.value.2 := by
  obtain ⟨s, receiver, hrun, hreceiver, hclosed⟩ : ∃ s receiver,
      [.dropSender, .changed 0, .poll 0 { task := 0 } false, .stepPoll 0, .stepPoll 0,
        .stepPoll 0].foldlM (fun s op => if s.publishing op then none else s.exec op)
        (System.channel 0) = some s ∧ receiver ∈ s.receivers ∧
      receiver.changed = some (.completed (.error .closed)) := ⟨_, _, rfl, mem_singleton_self _, rfl⟩
  have hs : (calmWatchSystem 0).Reachable s := by
    refine ⟨.channel 0, _, rfl, .of_foldlM (fun s op s' h => ?_) _ hrun⟩
    obtain ⟨hnone, hexec⟩ := ite_none_left_eq_some.mp h
    exact ⟨hexec, fun hpublishing => absurd hpublishing hnone⟩
  exact ⟨s, receiver, hs, hreceiver, hclosed,
    closed_receiver_saw_last_version hs hreceiver hclosed .nil⟩

/-- A value is published between the two looks, and the sender goes. -/
def missedValue : List (Op Nat) :=
  [.changed 0, .poll 0 { task := 0 } false, .stepPoll 0, .stepPoll 0, .stepPoll 0, .stepPoll 0,
    .stepPoll 0, .send 1, .stepSender 0, .stepSender 0, .stepSender 0, .stepSender 0, .stepSender 0,
    .stepSender 0, .dropSender, .stepPoll 0]

/-- The receiver is told that the channel is closed, and has not seen the value. -/
theorem closed_receiver_misses_value : ∃ (s : System Nat) (receiver : Receiver),
    (watchSystem 0).Reachable s ∧ receiver ∈ s.receivers ∧
    receiver.changed = some (.completed (.error .closed)) ∧
    receiver.seenVersion ≠ s.inner.value.2 := by
  obtain ⟨s, receiver, hrun, hreceiver, hclosed, hmissed⟩ : ∃ s receiver,
      missedValue.foldlM System.exec (.channel 0) = some s ∧ receiver ∈ s.receivers ∧
      receiver.changed = some (.completed (.error .closed)) ∧
      receiver.seenVersion ≠ s.inner.value.2 := ⟨_, _, rfl, mem_singleton_self _, rfl, by decide⟩
  refine ⟨s, receiver, ⟨.channel 0, missedValue, rfl, ?_⟩, hreceiver, hclosed, hmissed⟩
  exact .of_foldlM (fun _ _ _ h => h) _ hrun

end Watch
end Asupersync
