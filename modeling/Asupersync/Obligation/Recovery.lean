import Asupersync.Obligation.CrdtLedger

/-!
# The recovery governor

A governor looks at the ledger of one replica from time to time.  A tick aborts
obligations that have been reserved for too long, then repairs conflicts, then
repairs linearity violations, and stops when its budget for the tick is used up.

A loop that breaks off when the budget is gone is a fold whose steps do nothing
from then on.
-/

namespace Asupersync

open Std Lib

structure RecoveryConfig where
  staleTimeoutNs : Nat
  maxResolutionsPerTick : Nat
  autoResolveConflicts : Bool
  autoAbortViolations : Bool
deriving DecidableEq, Repr

inductive RecoveryPhase where
  | idle
  | scanning
  | resolving
deriving DecidableEq, Repr

inductive RecoveryAction where
  | staleAbort (id : ObligationId) (ageNs : Nat)
  | conflictResolved (id : ObligationId)
  | violationAborted (id : ObligationId) (totalAcquires totalResolves : Nat)
  | flagged (id : ObligationId) (reason : String)
deriving DecidableEq, Repr

structure RecoveryTickResult where
  actions : List RecoveryAction
  remainingPending : Nat
  remainingConflicts : Nat
  remainingViolations : Nat
  isQuiescent : Bool
deriving DecidableEq, Repr

/-- The governor of one replica, with the time it first saw each reserved obligation. -/
structure RecoveryGovernor where
  config : RecoveryConfig
  phase : RecoveryPhase
  firstSeenReserved : ExtTreeMap ObligationId Nat
  totalTicks : Nat
  totalActions : Nat

variable {NodeId : Type} [LinearOrder NodeId]

namespace CrdtObligationLedger

def get (l : CrdtObligationLedger NodeId) (id : ObligationId) : LatticeState :=
  (l.entries[id]?).elim .unknown (·.state)

/-- The obligations whose entry is as `p` says, in the order of their ids. -/
def select (l : CrdtObligationLedger NodeId) (p : CrdtObligationEntry NodeId → Bool) :
    List (ObligationId × CrdtObligationEntry NodeId) :=
  l.entries.toList.filter fun entry => p entry.2

def pending (l : CrdtObligationLedger NodeId) : List ObligationId :=
  (l.select fun e => e.state == .reserved).map Prod.fst

def conflicts (l : CrdtObligationLedger NodeId) : List (ObligationId × CrdtObligationEntry NodeId) :=
  l.select (·.isConflict)

def violations (l : CrdtObligationLedger NodeId) :
    List (ObligationId × CrdtObligationEntry NodeId) :=
  l.select fun e => !e.isLinear

end CrdtObligationLedger

namespace RecoveryGovernor

def new (config : RecoveryConfig) : RecoveryGovernor :=
  { config := config, phase := .idle, firstSeenReserved := ∅, totalTicks := 0, totalActions := 0 }

/-- Forgets what is no longer reserved and notes what has become so. -/
def updateFirstSeen (g : RecoveryGovernor) (ledger : CrdtObligationLedger NodeId) (nowNs : Nat) :
    ExtTreeMap ObligationId Nat :=
  ledger.pending.foldl (fun seen id => seen.insertIfNew id nowNs)
    (g.firstSeenReserved.filter fun id _ => ledger.get id == .reserved)

/-- The first `limit` obligations that have been reserved for too long. -/
def findStale (config : RecoveryConfig) (seen : ExtTreeMap ObligationId Nat) (nowNs limit : Nat) :
    List ObligationId :=
  ((seen.toList.filter fun entry => decide (config.staleTimeoutNs ≤ nowNs - entry.2)).take limit).map
    Prod.fst

/-- What a tick works on. -/
structure TickState (NodeId : Type) [LinearOrder NodeId] where
  ledger : CrdtObligationLedger NodeId
  seen : ExtTreeMap ObligationId Nat
  actions : List RecoveryAction
  unresolvedConflicts : List ObligationId
  budget : Nat

def abortStale (nowNs : Nat) (s : TickState NodeId) (id : ObligationId) : TickState NodeId :=
  if s.budget = 0 then s
  else
    { s with
      ledger := (s.ledger.recordAbort id).2
      actions := s.actions ++ [.staleAbort id (nowNs - s.seen.getD id nowNs)]
      seen := s.seen.erase id
      budget := s.budget - 1 }

def resolveConflict (config : RecoveryConfig) (s : TickState NodeId)
    (conflict : ObligationId × CrdtObligationEntry NodeId) : TickState NodeId :=
  if s.budget = 0 then s
  else if config.autoResolveConflicts then
    { s with
      ledger := s.ledger.forceAbortRepair conflict.1
      actions := s.actions ++ [.conflictResolved conflict.1]
      budget := s.budget - 1 }
  else
    { s with
      unresolvedConflicts := s.unresolvedConflicts ++ [conflict.1]
      actions := s.actions ++ [.flagged conflict.1 "conflict: Committed ⊔ Aborted"]
      budget := s.budget - 1 }

def abortViolation (config : RecoveryConfig) (s : TickState NodeId)
    (v : ObligationId × CrdtObligationEntry NodeId) : TickState NodeId :=
  if s.budget = 0 then s
  else if v.1 ∈ s.unresolvedConflicts then s
  else if config.autoAbortViolations then
    { s with
      ledger := s.ledger.forceAbortRepair v.1
      actions := s.actions ++ [.violationAborted v.1 v.2.totalAcquires v.2.totalResolves]
      budget := s.budget - 1 }
  else
    { s with
      actions := s.actions ++ [.flagged v.1 ("linearity: acquires=" ++ toString v.2.totalAcquires ++
        ", resolves=" ++ toString v.2.totalResolves)]
      budget := s.budget - 1 }

/-- The phases of a tick, each on what the one before has left of the budget. -/
def resolve (config : RecoveryConfig) (nowNs : Nat) (s : TickState NodeId) : TickState NodeId :=
  let s := (findStale config s.seen nowNs s.budget).foldl (abortStale nowNs) s
  let s := (s.ledger.conflicts.take s.budget).foldl (resolveConflict config) s
  (s.ledger.violations.take s.budget).foldl (abortViolation config) s

def tick (g : RecoveryGovernor) (ledger : CrdtObligationLedger NodeId) (nowNs : Nat) :
    RecoveryTickResult × RecoveryGovernor × CrdtObligationLedger NodeId :=
  let s := resolve g.config nowNs
    { ledger := ledger
      seen := g.updateFirstSeen ledger nowNs
      actions := []
      unresolvedConflicts := []
      budget := g.config.maxResolutionsPerTick }
  let pending := s.ledger.pending.length
  let conflicts := s.ledger.conflicts.length
  let violations := s.ledger.violations.length
  ({ actions := s.actions
     remainingPending := pending
     remainingConflicts := conflicts
     remainingViolations := violations
     isQuiescent := pending == 0 && conflicts == 0 && violations == 0 },
    { g with
      phase := .idle
      firstSeenReserved := s.seen
      totalTicks := g.totalTicks + 1
      totalActions := g.totalActions + s.actions.length },
    s.ledger)

end RecoveryGovernor

/-- The replicas of a cluster, each with its governor. -/
structure RecoveryCluster (ι NodeId : Type) [LinearOrder NodeId] where
  ledger : ι → CrdtObligationLedger NodeId
  governor : ι → RecoveryGovernor

namespace RecoveryCluster

variable {ι : Type}

/-- What the tick of a replica returns. -/
def tickOf (c : RecoveryCluster ι NodeId) (now : ι → Nat) (i : ι) :
    RecoveryTickResult × RecoveryGovernor × CrdtObligationLedger NodeId :=
  (c.governor i).tick (c.ledger i) (now i)

/-- Every replica ticks. -/
def tickAll (c : RecoveryCluster ι NodeId) (now : ι → Nat) : RecoveryCluster ι NodeId :=
  { ledger := fun i => (c.tickOf now i).2.2, governor := fun i => (c.tickOf now i).2.1 }

/-- Replicas merge each other, one pair after the other. -/
def mergeMany [DecidableEq ι] (c : RecoveryCluster ι NodeId) (merges : List (ι × ι)) :
    RecoveryCluster ι NodeId :=
  { c with ledger := merges.foldl (Gossip.exchange CrdtObligationLedger.merge) c.ledger }

end RecoveryCluster

/-- A round: when the replicas tick, and in which order they merge each other. -/
structure RecoveryRound (ι : Type) where
  now : ι → Nat
  merges : List (ι × ι)
  complete : ∀ i j, i ≠ j → (i, j) ∈ merges

namespace RecoveryCluster

variable {ι : Type} [DecidableEq ι]

/-- The replicas tick, then they merge each other. -/
def round (c : RecoveryCluster ι NodeId) (r : RecoveryRound ι) : RecoveryCluster ι NodeId :=
  (c.tickAll r.now).mergeMany r.merges

/-- The cluster after the first `k` rounds. -/
def after (c : RecoveryCluster ι NodeId) (rounds : Nat → RecoveryRound ι) :
    Nat → RecoveryCluster ι NodeId
  | 0 => c
  | k + 1 => (c.after rounds k).round (rounds k)

/-- The cluster in round `k`, when all replicas have ticked and `n` merges are done. -/
def during (c : RecoveryCluster ι NodeId) (rounds : Nat → RecoveryRound ι) (k n : Nat) :
    RecoveryCluster ι NodeId :=
  ((c.after rounds k).tickAll (rounds k).now).mergeMany ((rounds k).merges.take n)

end RecoveryCluster

end Asupersync
