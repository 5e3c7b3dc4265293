import Asupersync.Types.Basic
import Mathlib.Data.Prod.Lex
import Mathlib.Data.String.Basic
import Mathlib.Order.WithBot

/-!
# Cancellation reasons and witnesses

The cancellation kinds with their severities, `CancelReason` with its bounded
cause chain, the `strengthen` operation, the cleanup budget of each kind, and
the `CancelWitness` validator.

**Results.**
* `CancelReason.strengthen_is_join`: strengthening is a join on severity, timestamp
  and message.
* `CancelReason.withCauseLimited_bounded_iff`: when an attached cause chain keeps the limits.
* `CancelWitness.validateTransition_eq_ok_iff`: the validator accepts exactly the
  pairs that agree on task, region and epoch and weaken neither phase nor
  severity.
-/

namespace Asupersync

/-- The kind of a cancellation request. -/
inductive CancelKind where
  | user
  | timeout
  | deadline
  | pollQuota
  | costBudget
  | failFast
  | raceLost
  | parentCancelled
  | resourceUnavailable
  | shutdown
  | linkedExit
deriving DecidableEq, Repr

/-- Severity of a kind; a higher severity wins when reasons are strengthened. -/
def CancelKind.severity : CancelKind → Nat
  | .user => 0
  | .timeout | .deadline => 1
  | .pollQuota | .costBudget => 2
  | .failFast | .raceLost | .linkedExit => 3
  | .parentCancelled | .resourceUnavailable => 4
  | .shutdown => 5

/-- Limits on the cause chain of a reason. -/
structure CancelAttributionConfig where
  maxChainDepth : Nat
  maxChainMemory : Nat
deriving DecidableEq, Repr

namespace CancelAttributionConfig

/-- The default limits. -/
def default : CancelAttributionConfig :=
  { maxChainDepth := 16, maxChainMemory := 4096 }

/-- Estimated cost of one reason without its cause chain. -/
def singleReasonCost : Nat := 80

/-- Estimated cost of a chain of the given depth. -/
def estimatedChainCost (depth : Nat) : Nat :=
  if depth = 0 then 0 else singleReasonCost * depth + 8 * (depth - 1)

/-- A chain of that depth is within both limits. -/
def Fits (config : CancelAttributionConfig) (depth : Nat) : Prop :=
  depth ≤ config.maxChainDepth ∧ estimatedChainCost depth ≤ config.maxChainMemory

theorem Fits.mono {config : CancelAttributionConfig} {m n : Nat} (h : config.Fits n) (hm : m ≤ n) :
    config.Fits m := by
  simp only [Fits, estimatedChainCost, singleReasonCost] at h ⊢
  split_ifs at h ⊢ <;> omega

end CancelAttributionConfig

/-- Why a region or a task is cancelled, with the chain of causes. -/
structure CancelReason where
  kind : CancelKind
  originRegion : RegionId
  originTask : Option TaskId
  timestamp : Time
  message : Option String
  cause : Option CancelReason
  truncated : Bool
  truncatedAtDepth : Option Nat
deriving Repr

namespace CancelReason

/-- Equality of reasons, cause by cause. -/
def decEq : (a b : CancelReason) → Decidable (a = b)
  | ⟨k, r, t, s, m, none, tr, d⟩, ⟨k', r', t', s', m', none, tr', d'⟩ =>
    decidable_of_iff
      (k = k' ∧ r = r' ∧ t = t' ∧ s = s' ∧ m = m' ∧ tr = tr' ∧ d = d') (by simp)
  | ⟨k, r, t, s, m, some c, tr, d⟩, ⟨k', r', t', s', m', some c', tr', d'⟩ =>
    match decEq c c' with
    | isTrue h =>
      decidable_of_iff
        (k = k' ∧ r = r' ∧ t = t' ∧ s = s' ∧ m = m' ∧ tr = tr' ∧ d = d') (by simp [h])
    | isFalse h => isFalse (by simp [h])
  | ⟨_, _, _, _, _, none, _, _⟩, ⟨_, _, _, _, _, some _, _, _⟩ => isFalse (by simp)
  | ⟨_, _, _, _, _, some _, _, _⟩, ⟨_, _, _, _, _, none, _, _⟩ => isFalse (by simp)

instance : DecidableEq CancelReason := decEq

/-- The placeholder region of reasons built without an origin. -/
def testingDefaultRegion : RegionId := ⟨⟨0, 0⟩⟩

/-- A reason with minimal attribution. -/
def new (kind : CancelKind) : CancelReason :=
  { kind := kind, originRegion := testingDefaultRegion, originTask := none,
    timestamp := 0, message := none, cause := none,
    truncated := false, truncatedAtDepth := none }

/-- A reason with its origin. -/
def withOrigin (kind : CancelKind) (originRegion : RegionId) (timestamp : Time) : CancelReason :=
  { new kind with originRegion := originRegion, timestamp := timestamp }

/-- The reason given to the descendants of a cancelled region. -/
def parentCancelled : CancelReason := new .parentCancelled

/-- Sets the timestamp. -/
def withTimestamp (r : CancelReason) (timestamp : Time) : CancelReason :=
  { r with timestamp := timestamp }

/-- Sets the origin region. -/
def withRegion (r : CancelReason) (region : RegionId) : CancelReason :=
  { r with originRegion := region }

/-- The cause chain, starting with the reason itself. -/
def chain : CancelReason → List CancelReason
  | ⟨kind, region, task, ts, msg, none, tr, trd⟩ =>
    [⟨kind, region, task, ts, msg, none, tr, trd⟩]
  | ⟨kind, region, task, ts, msg, some c, tr, trd⟩ =>
    ⟨kind, region, task, ts, msg, some c, tr, trd⟩ :: chain c

/-- Depth of the cause chain: 1 without a cause. -/
def chainDepth (r : CancelReason) : Nat := r.chain.length

/-- Severity of the reason. -/
def severity (r : CancelReason) : Nat := r.kind.severity

/-- Cuts a cause chain to at most `maxDepth` levels and marks the cut. -/
def truncateChain : CancelReason → Nat → CancelReason
  | r, 0 => { r with cause := none, truncated := true, truncatedAtDepth := some 0 }
  | r, 1 =>
    { r with
      cause := none
      truncated := r.cause.isSome
      truncatedAtDepth := if r.cause.isSome then some 1 else r.truncatedAtDepth }
  | r, n + 2 =>
    match r.cause with
    | none => { r with truncated := false }
    | some c => { r with cause := some (truncateChain c (n + 1)) }

/-- The memory loop of `withCauseLimited`: the deepest cause that still fits,
counted up from `allowed` for at most `fuel` more levels. -/
def allowedDepth (maxMemory : Nat) : Nat → Nat → Nat
  | 0, allowed => allowed
  | fuel + 1, allowed =>
    if CancelAttributionConfig.estimatedChainCost (1 + allowed + 1) ≤ maxMemory then
      allowedDepth maxMemory fuel (allowed + 1)
    else allowed

/-- Attaches `cause`, cut to at most `allowed` levels, and records the cut. -/
def withTruncatedCause (r cause : CancelReason) (allowed : Nat) : CancelReason :=
  if allowed = 0 then
    { r with truncated := true, truncatedAtDepth := some 1 }
  else
    { r with
      cause := some (truncateChain cause allowed)
      truncated := true
      truncatedAtDepth := some (1 + allowed) }

/-- Attaches a cause chain within the depth and memory limits. -/
def withCauseLimited (r cause : CancelReason)
    (config : CancelAttributionConfig) : CancelReason :=
  if config.maxChainDepth < 1 + cause.chainDepth then
    r.withTruncatedCause cause (config.maxChainDepth - 1)
  else if config.maxChainMemory <
      CancelAttributionConfig.estimatedChainCost (1 + cause.chainDepth) then
    r.withTruncatedCause cause (allowedDepth config.maxChainMemory cause.chainDepth 0)
  else
    { r with cause := some cause }

/-- Whether `other` replaces `r` when `r` is strengthened: higher severity, then
earlier timestamp, then a message where there was none or a smaller message. -/
def shouldReplace (r other : CancelReason) : Bool :=
  if r.kind.severity < other.kind.severity then true
  else if other.kind.severity < r.kind.severity then false
  else if other.timestamp < r.timestamp then true
  else if r.timestamp < other.timestamp then false
  else
    match r.message, other.message with
    | none, some _ => true
    | some current, some candidate => decide (candidate < current)
    | _, _ => false

/-- Strengthens a reason with another, keeping the more severe one. -/
def strengthen (r other : CancelReason) : CancelReason :=
  if r.shouldReplace other then other else r

/-- The cleanup budget of each kind. -/
def cleanupBudget (r : CancelReason) : Budget :=
  match r.kind with
  | .user => (Budget.new.withPollQuota 1000).withPriority 200
  | .timeout | .deadline => (Budget.new.withPollQuota 500).withPriority 210
  | .pollQuota | .costBudget => (Budget.new.withPollQuota 300).withPriority 215
  | .failFast | .raceLost | .parentCancelled | .resourceUnavailable | .linkedExit =>
    (Budget.new.withPollQuota 200).withPriority 220
  | .shutdown => (Budget.new.withPollQuota 50).withPriority 255

/-- What decides which of two reasons is kept: severity, timestamp and message.  The more
severe reason comes first, then the earlier one, and a reason without message last. -/
def key (r : CancelReason) : ℕᵒᵈ ×ₗ Time ×ₗ WithTop String :=
  toLex (OrderDual.toDual r.severity, toLex (r.timestamp, r.message))

theorem shouldReplace_iff (r other : CancelReason) :
    r.shouldReplace other = true ↔ other.key < r.key := by
  simp only [key, Prod.Lex.toLex_lt_toLex, OrderDual.toDual_lt_toDual, severity,
    OrderDual.toDual_inj, shouldReplace]
  split_ifs with h₁ h₂ h₃ h₄
  · simp [h₁]
  · simp [h₁, h₂.ne]
  · simp [h₃, le_antisymm (not_lt.mp h₂) (not_lt.mp h₁)]
  · simp [h₁, h₃, h₄.ne']
  · simp only [le_antisymm (not_lt.mp h₁) (not_lt.mp h₂), le_antisymm (not_lt.mp h₃) (not_lt.mp h₄),
      lt_irrefl, false_or, true_and]
    cases r.message with
    | none =>
      cases other.message with
      | none => exact iff_of_false Bool.false_ne_true (lt_irrefl _)
      | some candidate => exact iff_of_true rfl (WithTop.coe_lt_top candidate)
    | some current =>
      cases other.message with
      | none => exact iff_of_false Bool.false_ne_true not_top_lt
      | some candidate => exact decide_eq_true_iff.trans WithTop.coe_lt_coe.symm

theorem severity_le_of_key_le {a b : CancelReason} (h : a.key ≤ b.key) : b.severity ≤ a.severity :=
  Prod.Lex.monotone_fst _ _ h

theorem key_le_of_not_shouldReplace {a b : CancelReason} (h : ¬ a.shouldReplace b = true) :
    a.key ≤ b.key :=
  not_lt.mp fun hlt => h ((shouldReplace_iff a b).mpr hlt)

/-- Strengthening takes the maximum of the severities. -/
theorem strengthen_severity (r other : CancelReason) :
    (r.strengthen other).severity = max r.severity other.severity := by
  rw [strengthen]
  split_ifs with h
  · exact (max_eq_right (severity_le_of_key_le ((shouldReplace_iff r other).mp h).le)).symm
  · exact (max_eq_left (severity_le_of_key_le (key_le_of_not_shouldReplace h))).symm

theorem severity_le_strengthen (r other : CancelReason) :
    r.severity ≤ (r.strengthen other).severity := by
  rw [strengthen_severity]; exact le_max_left _ _

theorem key_strengthen (a b : CancelReason) : (a.strengthen b).key = min a.key b.key := by
  rw [strengthen]
  split_ifs with h
  · exact (min_eq_right ((shouldReplace_iff a b).mp h).le).symm
  · exact (min_eq_left (key_le_of_not_shouldReplace h)).symm

theorem le_key_foldl {x : ℕᵒᵈ ×ₗ Time ×ₗ WithTop String} (a : CancelReason)
    (l : List CancelReason) : x ≤ (l.foldl strengthen a).key ↔ ∀ r ∈ a :: l, x ≤ r.key := by
  induction l generalizing a with
  | nil => simp
  | cons b l ih => simp [ih, key_strengthen, and_assoc]

/-- Strengthening is a join on severity, timestamp and message, whose Boolean answer
`shouldReplace` says whether the reason changed, and a fold of it does not depend on the order. -/
theorem strengthen_is_join (a b c : CancelReason) :
    ((a.strengthen b).strengthen c).key = (a.strengthen (b.strengthen c)).key ∧
      a.strengthen a = a ∧ a.severity ≤ (a.strengthen b).severity ∧
      (a.shouldReplace b = true ↔ a.strengthen b ≠ a) ∧
      ∀ l m : List CancelReason, (a :: l).Perm (b :: m) →
        (l.foldl strengthen a).key = (m.foldl strengthen b).key := by
  refine ⟨?_, ?_, severity_le_strengthen a b, ⟨fun h heq => ?_, fun h => ?_⟩, fun l m h => ?_⟩
  · simp only [key_strengthen, min_assoc]
  · rw [strengthen, ite_self]
  · rw [strengthen, if_pos h] at heq
    exact ((shouldReplace_iff a b).mp h).ne (congrArg key heq)
  · by_contra hnot
    exact h (if_neg hnot)
  · refine eq_of_forall_le_iff fun x => ?_
    simp only [le_key_foldl, h.mem_iff]

section Bounded

open CancelAttributionConfig List

/-- A reason apart from its causes and the marks of their truncation. -/
def core (r : CancelReason) : CancelReason :=
  { r with cause := none, truncated := false, truncatedAtDepth := none }

/-- The causes of a reason, nearest first. -/
def causes (r : CancelReason) : List CancelReason := (r.cause.map chain).getD []

/-- The reason is followed by the first of the causes, marked where some are missing, within
the limits. -/
structure Bounded (config : CancelAttributionConfig) (r cause result : CancelReason) : Prop where
  chain : ∃ n, result.chain.map core = r.core :: (cause.chain.map core).take n ∧
    (n < cause.chainDepth → result.truncated = true)
  depth : result.chainDepth ≤ config.maxChainDepth
  memory : estimatedChainCost result.chainDepth ≤ config.maxChainMemory

variable {r cause result : CancelReason} {config : CancelAttributionConfig} {n : Nat}

theorem chain_eq (r : CancelReason) : r.chain = r :: r.causes := by
  obtain ⟨_, _, _, _, _, _ | _, _, _⟩ := r <;> rfl

theorem map_core_chain_truncateChain (r : CancelReason) (n : Nat) :
    (r.truncateChain (n + 1)).chain.map core = (r.chain.map core).take (n + 1) := by
  induction n generalizing r with
  | zero => simp [chain_eq, truncateChain, causes, core]
  | succ n ih =>
    rw [chain_eq r, truncateChain]
    cases hcause : r.cause with
    | none => simp [chain_eq, causes, hcause, core]
    | some c =>
      rw [chain_eq, causes, causes, hcause]
      simp only [Option.map_some, Option.getD_some, map_cons, take_succ_cons, ih]
      rfl

theorem allowedDepth_spec (memory fuel allowed : Nat)
    (h : estimatedChainCost (1 + allowed) ≤ memory) :
    ∃ n, allowedDepth memory fuel allowed = n ∧ n ≤ allowed + fuel ∧
      estimatedChainCost (1 + n) ≤ memory ∧
      (n < allowed + fuel → memory < estimatedChainCost (1 + n + 1)) := by
  induction fuel generalizing allowed with
  | zero => exact ⟨allowed, rfl, le_rfl, h, fun hlt => absurd hlt (lt_irrefl _)⟩
  | succ fuel ih =>
    rw [allowedDepth]
    split_ifs with hfits
    · simpa only [Nat.add_right_comm allowed, add_assoc] using ih (allowed + 1) hfits
    · exact ⟨allowed, rfl, by omega, h, fun _ => not_le.mp hfits⟩

theorem bounded_iff (hcore : result.core = r.core)
    (hcauses : result.causes.map core = (cause.chain.map core).take n)
    (hn : n ≤ cause.chainDepth) (hmark : n < cause.chainDepth → result.truncated = true) :
    Bounded config r cause result ↔ config.Fits (1 + n) := by
  have hlength : result.chainDepth = 1 + n := by
    have hleft := congrArg length hcauses
    rw [length_map, length_take, length_map] at hleft
    rw [chainDepth, chain_eq, length_cons, hleft, add_comm, ← chainDepth, min_eq_left hn]
  rw [← hlength]
  refine ⟨fun h => ⟨h.depth, h.memory⟩, fun h => ⟨⟨n, ?_, hmark⟩, h.1, h.2⟩⟩
  rw [chain_eq, map_cons, hcore, hcauses]

theorem bounded_withTruncatedCause (hn : n ≤ cause.chainDepth) (hzero : n = 0 → ¬config.Fits 2) :
    Bounded config r cause (r.withTruncatedCause cause n) ↔
      config.Fits (1 + n) ∧ (r.cause = none ∨ config.Fits 2) := by
  rw [withTruncatedCause]
  split_ifs with h0
  · subst h0
    cases hcause : r.cause with
    | none => exact Iff.trans (bounded_iff rfl rfl hn fun _ => rfl) (by simp)
    | some c =>
      -- the old cause stays although there is no room for one
      refine iff_of_false (fun h => ?_) fun h => hzero rfl (h.2.resolve_left nofun)
      have htwo (x : CancelReason) (hx : x.cause = some c) : 2 ≤ x.chainDepth := by
        simp [chainDepth, chain_eq, causes, hx]
      exact hzero rfl (Fits.mono ⟨h.depth, h.memory⟩ (htwo _ rfl))
  · obtain ⟨a, rfl⟩ := Nat.exists_eq_succ_of_ne_zero h0
    refine Iff.trans (bounded_iff rfl (map_core_chain_truncateChain cause a) hn fun _ => rfl) ?_
    exact (and_iff_left_of_imp fun h => .inr (h.mono (by omega))).symm

/-- Attaching a cause stays within limits that leave room for the reason itself exactly if a
chain cut to the depth limit also fits in memory, and no old cause is left where not even one
new cause fits. -/
theorem withCauseLimited_bounded_iff (r cause : CancelReason) (config : CancelAttributionConfig)
    (hone : config.Fits 1) :
    Bounded config r cause (r.withCauseLimited cause config) ↔
      (config.maxChainDepth < 1 + cause.chainDepth →
        estimatedChainCost config.maxChainDepth ≤ config.maxChainMemory) ∧
      (r.cause = none ∨ config.Fits 2) := by
  have hcause : 1 ≤ cause.chainDepth := by simp [chainDepth, chain_eq]
  obtain ⟨hdepth, hmemory⟩ := hone
  rw [withCauseLimited]
  split_ifs with hdeep hlarge
  · rw [bounded_withTruncatedCause (by omega) fun h hfits => by have := hfits.1; omega,
      Nat.add_sub_cancel' hdepth]
    exact and_congr_left' ⟨fun h _ => h.2, fun h => ⟨le_rfl, h hdeep⟩⟩
  · obtain ⟨n, heq, hn, hcost, hlast⟩ := allowedDepth_spec _ cause.chainDepth 0 hmemory
    have hzero (h : n = 0) (hfits : config.Fits 2) : False := by
      subst h
      exact (hlast (by omega)).not_ge hfits.2
    rw [heq, bounded_withTruncatedCause (by omega) hzero]
    exact and_congr_left' (iff_of_true ⟨by omega, hcost⟩ fun h => absurd h hdeep)
  · have hfits : config.Fits (1 + cause.chainDepth) := ⟨not_lt.mp hdeep, not_lt.mp hlarge⟩
    refine Iff.trans (bounded_iff rfl (take_of_length_le (length_map core).le).symm le_rfl
      fun h => absurd h (lt_irrefl _)) (iff_of_true hfits ⟨fun h => absurd h hdeep, .inr ?_⟩)
    exact hfits.mono (by omega)

theorem withCauseLimited_bounded_default : CancelAttributionConfig.default.Fits 1 ∧
    Bounded .default (new .user) (new .timeout) ((new .user).withCauseLimited (new .timeout) .default) :=
  have hone := ⟨by decide, by decide⟩
  ⟨hone, (withCauseLimited_bounded_iff _ _ _ hone).mpr ⟨by decide, .inl rfl⟩⟩

/-- The old cause is kept at a depth limit of 1. -/
theorem withCauseLimited_too_deep : ∃ r cause config, Fits config 1 ∧
    ¬Bounded config r cause (r.withCauseLimited cause config) :=
  ⟨{ new .user with cause := some (new .timeout) }, new .shutdown, ⟨1, 80⟩, ⟨by decide, by decide⟩,
    fun h => absurd h.depth (by decide)⟩

end Bounded

end CancelReason

/-- The cancellation phase seen by a witness. -/
inductive CancelPhase where
  | requested
  | cancelling
  | finalizing
  | completed
deriving DecidableEq, Repr

/-- Position of a phase in the cancellation protocol. -/
def CancelPhase.rank : CancelPhase → Nat
  | .requested => 0
  | .cancelling => 1
  | .finalizing => 2
  | .completed => 3

/-- Token emitted by the cancellation protocol of one task. -/
structure CancelWitness where
  taskId : TaskId
  regionId : RegionId
  epoch : Nat
  phase : CancelPhase
  reason : CancelReason
deriving Repr

/-- Errors of the witness validators. -/
inductive CancelWitnessError where
  | initialEpochZero
  | taskMismatch
  | regionMismatch
  | epochMismatch
  | phaseRegression (fromPhase toPhase : CancelPhase)
  | reasonWeakened (fromKind toKind : CancelKind)
deriving DecidableEq, Repr

namespace CancelWitness

/-- Validates the first witness of a stream: its epoch is not the sentinel 0. -/
def validateInitial (w : CancelWitness) : Except CancelWitnessError Unit :=
  if w.epoch = 0 then .error .initialEpochZero else .ok ()

/-- Validates two consecutive witnesses of a stream. -/
def validateTransition (prev : Option CancelWitness) (next : CancelWitness) :
    Except CancelWitnessError Unit :=
  match prev with
  | none => .ok ()
  | some prev =>
    if prev.taskId ≠ next.taskId then .error .taskMismatch
    else if prev.regionId ≠ next.regionId then .error .regionMismatch
    else if prev.epoch ≠ next.epoch then .error .epochMismatch
    else if next.phase.rank < prev.phase.rank then
      .error (.phaseRegression prev.phase next.phase)
    else if next.reason.severity < prev.reason.severity then
      .error (.reasonWeakened prev.reason.kind next.reason.kind)
    else .ok ()

/-- The validator accepts exactly the monotone pairs of one task and epoch. -/
theorem validateTransition_eq_ok_iff (prev next : CancelWitness) :
    validateTransition (some prev) next = .ok () ↔
      prev.taskId = next.taskId ∧ prev.regionId = next.regionId ∧
        prev.epoch = next.epoch ∧ prev.phase.rank ≤ next.phase.rank ∧
        prev.reason.severity ≤ next.reason.severity := by
  simp only [validateTransition]
  split_ifs with htask hregion hepoch hphase hsev
  · exact iff_of_false nofun fun h => htask h.1
  · exact iff_of_false nofun fun h => hregion h.2.1
  · exact iff_of_false nofun fun h => hepoch h.2.2.1
  · exact iff_of_false nofun fun h => h.2.2.2.1.not_gt hphase
  · exact iff_of_false nofun fun h => h.2.2.2.2.not_gt hsev
  · exact iff_of_true rfl ⟨not_not.mp htask, not_not.mp hregion, not_not.mp hepoch,
      not_lt.mp hphase, not_lt.mp hsev⟩

end CancelWitness

end Asupersync
