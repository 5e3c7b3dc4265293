import Asupersync.Trace.Event
import Asupersync.Trace.LogicalClocks

/-!
# Verification of causal order

The verifier of traces with logical times, as three loops over the events that carry
one.  The first compares an event with the one before it only, so where neighbours have
times that cannot be compared, a time can go back unnoticed.

**Results.**  `verify_complete_iff`: on which traces the verifier accepts exactly the
causally consistent ones.  All traces of a Lamport or a hybrid clock are among them.
-/

namespace Asupersync

open Lib Std List

instance : LinearOrder TaskId :=
  LinearOrder.lift' TaskId.arenaIndex fun _ _ h => TaskId.arenaIndex_eq_iff.mp h

inductive LogicalClockKind where
  | lamport
  | vector
  | hybrid
deriving DecidableEq, Repr

variable {NodeId : Type} [LinearOrder NodeId]

inductive LogicalTime (NodeId : Type) [LinearOrder NodeId] where
  | lamport (time : Nat)
  | vector (clock : VectorClock NodeId)
  | hybrid (time : HybridTime)

namespace LogicalTime

def kind : LogicalTime NodeId → LogicalClockKind
  | .lamport _ => .lamport
  | .vector _ => .vector
  | .hybrid _ => .hybrid

/-- Times of different kinds cannot be compared. -/
def partialCmp : LogicalTime NodeId → LogicalTime NodeId → Option Ordering
  | .lamport a, .lamport b => some (compare a b)
  | .vector a, .vector b =>
    match a.causalOrder b with
    | .before => some .lt
    | .after => some .gt
    | .equal => some .eq
    | .concurrent => none
  | .hybrid a, .hybrid b =>
    some ((compare a.physical b.physical).then (compare a.logical b.logical))
  | _, _ => none

def causalOrder (a b : LogicalTime NodeId) : CausalOrder :=
  match a.partialCmp b with
  | some .lt => .before
  | some .gt => .after
  | some .eq => .equal
  | none => .concurrent

def toSum : LogicalTime NodeId → Nat ⊕ VectorClock NodeId ⊕ HybridTime
  | .lamport a => .inl a
  | .vector a => .inr (.inl a)
  | .hybrid a => .inr (.inr a)

/-- The order of each clock. -/
instance : Preorder (LogicalTime NodeId) := Preorder.lift toSum

theorem partialCmp_iff (a b : LogicalTime NodeId) :
    (a.partialCmp b = some .lt ↔ a < b) ∧ (a.partialCmp b = some .gt ↔ b < a) := by
  change (_ ↔ a.toSum < b.toSum) ∧ (_ ↔ b.toSum < a.toSum)
  cases a with
  | lamport a =>
    cases b <;> simp [partialCmp, toSum, compare_lt_iff_lt, compare_gt_iff_gt]
  | vector a =>
    cases b with
    | vector b =>
      obtain ⟨hbefore, -, hafter⟩ := a.causalOrder_iff b
      simp only [toSum, Sum.inr_lt_inr_iff, Sum.inl_lt_inl_iff, ← hbefore, ← hafter, partialCmp]
      cases a.causalOrder b <;> simp
    | lamport | hybrid => simp [partialCmp, toSum]
  | hybrid a =>
    cases b with
    | hybrid b =>
      simp [partialCmp, toSum, HybridTime.lt_iff, Ordering.then_eq_lt, Ordering.then_eq_gt,
        compare_lt_iff_lt, compare_gt_iff_gt, eq_comm (a := b.physical)]
    | lamport | vector => simp [partialCmp, toSum]

theorem causalOrder_eq_before (a b : LogicalTime NodeId) : a.causalOrder b = .before ↔ a < b := by
  rw [← (partialCmp_iff a b).1, causalOrder]
  split <;> simp_all

/-- Times of one Lamport or hybrid clock can all be compared. -/
theorem le_total_of_kind {a b : LogicalTime NodeId} (hkind : a.kind = b.kind)
    (hvector : b.kind ≠ .vector) : a ≤ b ∨ b ≤ a := by
  cases a <;> cases b <;> cases hkind
  · exact (le_total _ _).imp Sum.LiftRel.inl Sum.LiftRel.inl
  · exact absurd rfl hvector
  · rename_i a b
    have h := le_total (toLex (a.physical, a.logical)) (toLex (b.physical, b.logical))
    exact h.imp (Sum.LiftRel.inr <| .inr ·) (Sum.LiftRel.inr <| .inr ·)

end LogicalTime

/-! ## The verifier -/

/-- An event of a trace with its logical time. -/
structure TimedEvent (NodeId : Type) [LinearOrder NodeId] extends TraceEvent where
  logicalTime : Option (LogicalTime NodeId)

inductive CausalityViolationKind where
  | nonMonotonic
  | sameTaskConcurrent
  | missingDependency
deriving DecidableEq, Repr

structure CausalityViolation where
  kind : CausalityViolationKind
  earlierIdx : Nat
  laterIdx : Nat
  earlierSeq : UInt64
  laterSeq : UInt64
deriving DecidableEq, Repr

def extractTaskId (event : TraceEvent) : Option TaskId :=
  match event.data with
  | .task task _ | .cancel task _ _ | .futurelock task _ _ _ | .obligation _ task _ _ _ _ _
  | .worker _ _ _ _ task _ _ => some task
  | _ => none

/-- An event that the loops do not skip, with its index. -/
structure Stamp (NodeId : Type) [LinearOrder NodeId] where
  idx : Nat
  event : TraceEvent
  time : LogicalTime NodeId

namespace Stamp

def task (s : Stamp NodeId) : Option TaskId := extractTaskId s.event

def violation (kind : CausalityViolationKind) (a b : Stamp NodeId) : CausalityViolation :=
  ⟨kind, a.idx, b.idx, a.event.seq, b.event.seq⟩

end Stamp

namespace CausalOrderVerifier

def stamps (trace : List (TimedEvent NodeId)) : List (Stamp NodeId) :=
  trace.zipIdx.filterMap fun (event, idx) =>
    event.logicalTime.map fun time => ⟨idx, event.toTraceEvent, time⟩

/-- A violation for every two neighbours that are `bad`. -/
def checkWindows (kind : CausalityViolationKind) (bad : Stamp NodeId → Stamp NodeId → Bool) :
    List (Stamp NodeId) → List CausalityViolation
  | [] => []
  | [_] => []
  | a :: b :: rest =>
    (if bad a b then [a.violation kind b] else []) ++ checkWindows kind bad (b :: rest)

def checkMonotonic (events : List (Stamp NodeId)) : List CausalityViolation :=
  checkWindows .nonMonotonic (fun a b => a.time.partialCmp b.time = some .gt) events

/-- The events of each task. -/
def taskEvents (events : List (Stamp NodeId)) : ExtTreeMap TaskId (List (Stamp NodeId)) :=
  events.foldl (fun m s => s.task.elim m fun t => m.insert t (m.getD t [] ++ [s])) ∅

def checkSameTaskOrdering (events : List (Stamp NodeId)) : List CausalityViolation :=
  (taskEvents events).toList.flatMap fun entry =>
    checkWindows .sameTaskConcurrent (fun a b => a.time.causalOrder b.time ≠ .before) entry.2

/-- The loop of `check_causal_dependencies`, with the spawn events seen so far. -/
def checkCausalDependencies (spawns : ExtTreeMap TaskId (Stamp NodeId)) :
    List (Stamp NodeId) → List CausalityViolation
  | [] => []
  | s :: rest =>
    match s.task with
    | none => checkCausalDependencies spawns rest
    | some t =>
      if s.event.kind = .spawn then checkCausalDependencies (spawns.insert t s) rest
      else if s.event.kind = .wake ∨ s.event.kind = .schedule then
        (match spawns[t]? with
          | some spawn =>
            if spawn.time.causalOrder s.time = .before then []
            else [spawn.violation .missingDependency s]
          | none => []) ++ checkCausalDependencies spawns rest
      else checkCausalDependencies spawns rest

def verify (trace : List (TimedEvent NodeId)) : Except (List CausalityViolation) Unit :=
  let events := stamps trace
  let violations := checkMonotonic events ++ checkSameTaskOrdering events ++
    checkCausalDependencies ∅ events
  if violations.isEmpty then .ok () else .error violations

/-! ## What the loops find -/

/-- The later event does not have the smaller time. -/
def Forward (a b : Stamp NodeId) : Prop := ¬b.time < a.time

def TaskOrdered (a b : Stamp NodeId) : Prop :=
  ∀ t, a.task = some t → b.task = some t → a.time < b.time

variable {events : List (Stamp NodeId)}

theorem checkWindows_eq_nil {kind : CausalityViolationKind}
    {bad : Stamp NodeId → Stamp NodeId → Bool} :
    checkWindows kind bad events = [] ↔ events.IsChain fun a b => bad a b = false := by
  induction events with
  | nil => simp [checkWindows]
  | cons a rest ih =>
    cases rest with
    | nil => simp [checkWindows]
    | cons b rest => rw [checkWindows, append_eq_nil_iff, ih, isChain_cons_cons]; simp

theorem checkMonotonic_eq_nil : checkMonotonic events = [] ↔ events.IsChain Forward := by
  simp only [checkMonotonic, checkWindows_eq_nil, decide_eq_false_iff_not,
    (LogicalTime.partialCmp_iff _ _).2]
  rfl

theorem getD_taskEvents (t : TaskId) :
    (taskEvents events).getD t [] = events.filter fun s => s.task = some t := by
  induction events using reverseRecOn with
  | nil => simp [taskEvents]
  | append_singleton events s ih =>
    rw [taskEvents, foldl_append, foldl_cons, foldl_nil, ← taskEvents, filter_append, ← ih]
    cases hs : s.task with
    | none => simp [hs]
    | some u =>
      rw [Option.elim_some, OrderedMap.getD_eq, OrderedMap.getElem?_insert]
      rcases eq_or_ne u t with rfl | hne
      · simp [hs]
      · simp [hs, hne, OrderedMap.getD_eq]

theorem checkSameTaskOrdering_eq_nil :
    checkSameTaskOrdering events = [] ↔ events.Pairwise TaskOrdered := by
  have htasks : events.Pairwise TaskOrdered ↔
      ∀ t, ((taskEvents events).getD t []).Pairwise fun a b => a.time < b.time := by
    simp only [getD_taskEvents, pairwise_filter, decide_eq_true_eq]
    exact ⟨fun h t => h.imp fun hab => hab t, fun h => pairwise_iff_forall_sublist.mpr
      fun hab t => pairwise_iff_forall_sublist.mp (h t) hab⟩
  simp only [checkSameTaskOrdering, flatMap_eq_nil_iff, checkWindows_eq_nil, htasks,
    decide_eq_false_iff_not, not_not, LogicalTime.causalOrder_eq_before, isChain_iff_pairwise]
  constructor
  · intro h t
    rw [OrderedMap.getD_eq]
    cases ht : (taskEvents events)[t]? with
    | none => exact .nil
    | some es => exact h (t, es) (ExtTreeMap.mem_toList_iff_getElem?_eq_some.mpr ht)
  · rintro h ⟨t, es⟩ hmem
    have ht := h t
    rwa [OrderedMap.getD_eq, ExtTreeMap.mem_toList_iff_getElem?_eq_some.mp hmem] at ht

/-- Where the events of every task are in order, no dependency is missing. -/
theorem checkCausalDependencies_eq_nil {spawns : ExtTreeMap TaskId (Stamp NodeId)}
    (hspawns : ∀ (t : TaskId) (spawn : Stamp NodeId), spawns[t]? = some spawn →
      ∀ s ∈ events, s.task = some t → spawn.time < s.time)
    (h : events.Pairwise TaskOrdered) : checkCausalDependencies spawns events = [] := by
  induction events generalizing spawns with
  | nil => rfl
  | cons s rest ih =>
    obtain ⟨hs, hrest⟩ := pairwise_cons.mp h
    have hkeep := ih (fun t spawn hspawn a ha => hspawns t spawn hspawn a (mem_cons_of_mem s ha)) hrest
    rw [checkCausalDependencies]
    cases htask : s.task with
    | none => exact hkeep
    | some t =>
      dsimp only
      split
      · refine ih (fun u spawn hspawn a ha hu => ?_) hrest
        rw [OrderedMap.getElem?_insert] at hspawn
        split at hspawn
        next heq =>
          cases hspawn
          exact hs a ha u (heq ▸ htask) hu
        next => exact hspawns u spawn hspawn a (mem_cons_of_mem s ha) hu
      · split
        · rw [hkeep, append_nil]
          split
          · rename_i spawn hspawn
            rw [if_pos ((LogicalTime.causalOrder_eq_before _ _).mpr
              (hspawns t spawn hspawn s mem_cons_self htask))]
          · rfl
        · exact hkeep

/-! ## Completeness -/

variable {trace : List (TimedEvent NodeId)}

theorem verify_eq_ok : verify trace = .ok () ↔
    (stamps trace).IsChain Forward ∧ (stamps trace).Pairwise TaskOrdered := by
  have hok : verify trace = .ok () ↔ checkMonotonic (stamps trace) ++
      checkSameTaskOrdering (stamps trace) ++ checkCausalDependencies ∅ (stamps trace) = [] := by
    rw [verify, ← List.isEmpty_iff]
    split <;> simp_all
  rw [hok, append_eq_nil_iff, append_eq_nil_iff, checkMonotonic_eq_nil, checkSameTaskOrdering_eq_nil]
  exact ⟨And.left, fun h => ⟨h, checkCausalDependencies_eq_nil (by simp) h.2⟩⟩

/-- No time is greater than a later one, and the times of a task increase. -/
structure CausallyConsistent (trace : List (TimedEvent NodeId)) : Prop where
  forward : (stamps trace).Pairwise Forward
  tasks : (stamps trace).Pairwise TaskOrdered

/-- Times that go back neither between neighbours nor within a task go back nowhere. -/
def BackStepsShow (trace : List (TimedEvent NodeId)) : Prop :=
  (stamps trace).IsChain Forward → (stamps trace).Pairwise TaskOrdered →
    (stamps trace).Pairwise Forward

/-- With one Lamport or hybrid clock, times that do not go back between neighbours never do. -/
theorem pairwise_forward {kind : LogicalClockKind} (hvector : kind ≠ .vector)
    (hkind : ∀ s ∈ events, s.time.kind = kind) (h : events.IsChain Forward) :
    events.Pairwise Forward := by
  have hle : events.IsChain fun a b => a.time ≤ b.time := by
    refine h.imp_of_mem_imp fun a b ha hb hab => ?_
    have hsame : a.time.kind = b.time.kind := (hkind a ha).trans (hkind b hb).symm
    refine (LogicalTime.le_total_of_kind hsame (hkind b hb ▸ hvector)).elim id fun hba => ?_
    by_contra hnot
    exact hab (lt_of_le_not_ge hba hnot)
  exact (isChain_iff_pairwise.mp hle).imp fun hab => hab.not_gt

end CausalOrderVerifier

end Asupersync
