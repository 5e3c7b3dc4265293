import Asupersync.Lib.OrderedMap
import Asupersync.Lib.Gossip
import Asupersync.Runtime.ObligationTable

/-!
# The convergent obligation ledger

The replicated ledger of obligations: the lattice of distributed obligation states, the
entry of one obligation with its witnesses, counters and repair marks, and the ledger of
one replica with its local operations, `merge` and `compact`.

Node identifiers are only compared by the ledger, so they are any linear order here.
The per-node counters are unbounded.  The list queries and the snapshot record of a
ledger are not modelled apart from what they report about one entry: whether it is
linear and whether it is a conflict.
-/

namespace Asupersync

open Std Lib

/-- The distributed view of the state of an obligation. -/
inductive LatticeState where
  | unknown
  | reserved
  | committed
  | aborted
  | conflict
deriving DecidableEq, Repr

namespace LatticeState

def join : LatticeState → LatticeState → LatticeState
  | .unknown, x => x
  | x, .unknown => x
  | .conflict, _ => .conflict
  | _, .conflict => .conflict
  | .committed, .aborted => .conflict
  | .aborted, .committed => .conflict
  | .reserved, .reserved => .reserved
  | .committed, .committed => .committed
  | .reserved, .committed => .committed
  | .committed, .reserved => .committed
  | .aborted, .aborted => .aborted
  | .reserved, .aborted => .aborted
  | .aborted, .reserved => .aborted

def isTerminal : LatticeState → Bool
  | .committed | .aborted | .conflict => true
  | .unknown | .reserved => false

def isConflict (s : LatticeState) : Bool := s == .conflict

@[simp]
theorem unknown_join (s : LatticeState) : join .unknown s = s := by
  cases s <;> rfl

@[simp]
theorem join_unknown (s : LatticeState) : join s .unknown = s := by
  cases s <;> rfl

@[simp]
theorem join_self (s : LatticeState) : join s s = s := by
  cases s <;> rfl

theorem join_comm (s t : LatticeState) : join s t = join t s := by
  cases s <;> cases t <;> rfl

theorem join_assoc (s t u : LatticeState) : join (join s t) u = join s (join t u) := by
  cases s <;> cases t <;> cases u <;> rfl

@[simp]
theorem join_join_self (s t : LatticeState) : join s (join s t) = join s t := by
  rw [← join_assoc, join_self]

theorem isTerminal_join (s t : LatticeState) :
    (join s t).isTerminal = (s.isTerminal || t.isTerminal) := by
  cases s <;> cases t <;> rfl

end LatticeState

/-- The state of one obligation across the cluster, as one replica knows it. -/
@[ext]
structure CrdtObligationEntry (NodeId : Type) [LinearOrder NodeId] where
  state : LatticeState
  witnesses : ExtTreeMap NodeId LatticeState
  repairNodes : ExtTreeSet NodeId
  kind : Option ObligationKind
  acquireCounts : ExtTreeMap NodeId Nat
  resolveCounts : ExtTreeMap NodeId Nat

variable {NodeId : Type} [LinearOrder NodeId]

/-- The sum of the counters of all nodes. -/
def countTotal (counts : ExtTreeMap NodeId Nat) : Nat :=
  counts.foldl (fun total _ count => total + count) 0

namespace CrdtObligationEntry

def new : CrdtObligationEntry NodeId :=
  { state := .unknown
    witnesses := ∅
    repairNodes := ∅
    kind := none
    acquireCounts := ∅
    resolveCounts := ∅ }

def totalAcquires (e : CrdtObligationEntry NodeId) : Nat := countTotal e.acquireCounts

def totalResolves (e : CrdtObligationEntry NodeId) : Nat := countTotal e.resolveCounts

/-- At most one acquire, and no more resolves than acquires. -/
def isLinear (e : CrdtObligationEntry NodeId) : Bool :=
  decide (e.totalAcquires ≤ 1) && decide (e.totalResolves ≤ e.totalAcquires)

def isTerminal (e : CrdtObligationEntry NodeId) : Bool := e.state.isTerminal

def isConflict (e : CrdtObligationEntry NodeId) : Bool := e.state.isConflict

/-- The first of the nodes that have repaired the entry. -/
def repairOwner (e : CrdtObligationEntry NodeId) : Option NodeId :=
  e.repairNodes.toList.head?

def normalizeRepairTombstone (e : CrdtObligationEntry NodeId) : CrdtObligationEntry NodeId :=
  match e.repairOwner with
  | none => e
  | some owner =>
    { e with
      state := .aborted
      witnesses := (∅ : ExtTreeMap NodeId LatticeState).insert owner .aborted
      acquireCounts := (∅ : ExtTreeMap NodeId Nat).insert owner 1
      resolveCounts := (∅ : ExtTreeMap NodeId Nat).insert owner 1 }

/-- The witness of a node is joined with a state; a node without one has `unknown`. -/
def joinWitness (e : CrdtObligationEntry NodeId) (node : NodeId) (s : LatticeState) :
    CrdtObligationEntry NodeId :=
  { e with witnesses := e.witnesses.insert node ((e.witnesses.getD node .unknown).join s) }

/-- State and kind after the kinds of two entries have been compared: different kinds
are a conflict, and the smaller one is kept. -/
def mergeKind (state : LatticeState) :
    Option ObligationKind → Option ObligationKind → LatticeState × Option ObligationKind
  | none, rhs => (state, rhs)
  | some lhs, some rhs =>
    if lhs ≠ rhs then (state.join .conflict, some (min lhs rhs)) else (state, some lhs)
  | some lhs, none => (state, some lhs)

def mergeEntry (e other : CrdtObligationEntry NodeId) : CrdtObligationEntry NodeId :=
  let merged := mergeKind (e.state.join other.state) e.kind other.kind
  normalizeRepairTombstone
    { state := merged.1
      witnesses := OrderedMap.mergeInto LatticeState.join .unknown e.witnesses other.witnesses
      repairNodes := other.repairNodes.foldl (fun nodes node => nodes.insert node) e.repairNodes
      kind := merged.2
      acquireCounts := OrderedMap.mergeInto max 0 e.acquireCounts other.acquireCounts
      resolveCounts := OrderedMap.mergeInto max 0 e.resolveCounts other.resolveCounts }

def isRepairTombstone (e : CrdtObligationEntry NodeId) : Bool :=
  match e.repairOwner with
  | none => false
  | some owner =>
    decide (e.state = .aborted) &&
      decide (e.witnesses.size = 1) && decide (e.witnesses[owner]? = some .aborted) &&
      decide (e.acquireCounts.size = 1) && decide (e.acquireCounts[owner]? = some 1) &&
      decide (e.resolveCounts.size = 1) && decide (e.resolveCounts[owner]? = some 1)

def isCompactTombstoneFor (e : CrdtObligationEntry NodeId) (localNode : NodeId) : Bool :=
  if !e.repairNodes.isEmpty then e.isRepairTombstone
  else
    decide (e.witnesses.size = 1) && decide (e.witnesses[localNode]? = some e.state) &&
      (decide (e.acquireCounts.size = 1) && decide (e.acquireCounts[localNode]? = some 1)) &&
      (decide (e.resolveCounts.size = 1) && decide (e.resolveCounts[localNode]? = some 1))

/-- Whether the entry was rewritten, and the entry that is left. -/
def compactTerminalTombstone (e : CrdtObligationEntry NodeId) (localNode : NodeId) :
    Bool × CrdtObligationEntry NodeId :=
  if e.isCompactTombstoneFor localNode then (false, e)
  else if !e.repairNodes.isEmpty then (true, e.normalizeRepairTombstone)
  else
    (true,
      { e with
        witnesses := (∅ : ExtTreeMap NodeId LatticeState).insert localNode e.state
        acquireCounts := (∅ : ExtTreeMap NodeId Nat).insert localNode 1
        resolveCounts := (∅ : ExtTreeMap NodeId Nat).insert localNode 1 })

/-! The local operations of the ledger, on the entry they work on. -/

def recordAcquire (e : CrdtObligationEntry NodeId) (localNode : NodeId)
    (kind : ObligationKind) : CrdtObligationEntry NodeId :=
  if e.isTerminal then e
  else
    match e.kind with
    | some existingKind =>
      if existingKind ≠ kind then
        { e with state := e.state.join .conflict }.joinWitness localNode .conflict
      else acquired e
    | none => acquired { e with kind := some kind }
where
  acquired (e : CrdtObligationEntry NodeId) : CrdtObligationEntry NodeId :=
    { e with
      acquireCounts := e.acquireCounts.insert localNode (e.acquireCounts.getD localNode 0 + 1)
      state := e.state.join .reserved }.joinWitness localNode .reserved

def recordResolve (e : CrdtObligationEntry NodeId) (localNode : NodeId)
    (terminal : LatticeState) : CrdtObligationEntry NodeId :=
  -- A repaired entry is a tombstone: resolving it again does nothing.
  if !e.repairNodes.isEmpty then e
  else
    let e := { e with state := e.state.join terminal }.joinWitness localNode terminal
    normalizeRepairTombstone
      { e with
        resolveCounts :=
          e.resolveCounts.insert localNode (e.resolveCounts.getD localNode 0 + 1) }

/-- Only an entry that is a conflict or violates linearity is repaired. -/
def forceAbortRepair (e : CrdtObligationEntry NodeId) (localNode : NodeId) :
    CrdtObligationEntry NodeId :=
  if !e.isConflict && e.isLinear then e
  else normalizeRepairTombstone { e with repairNodes := e.repairNodes.insert localNode }

/-- What `compact` does with one entry. -/
def compact (e : CrdtObligationEntry NodeId) (localNode : NodeId) :
    Bool × CrdtObligationEntry NodeId :=
  if e.isTerminal && e.isLinear && !e.isConflict then e.compactTerminalTombstone localNode
  else (false, e)

end CrdtObligationEntry

/-- The ledger of one replica. -/
structure CrdtObligationLedger (NodeId : Type) [LinearOrder NodeId] where
  localNode : NodeId
  entries : ExtTreeMap ObligationId (CrdtObligationEntry NodeId)

namespace CrdtObligationLedger

def new (localNode : NodeId) : CrdtObligationLedger NodeId :=
  { localNode := localNode, entries := ∅ }

/-- An entry is made the first time its obligation is met. -/
def entryOrNew (l : CrdtObligationLedger NodeId) (id : ObligationId) :
    CrdtObligationEntry NodeId :=
  l.entries.getD id .new

def put (l : CrdtObligationLedger NodeId) (id : ObligationId)
    (e : CrdtObligationEntry NodeId) : CrdtObligationLedger NodeId :=
  { l with entries := l.entries.insert id e }

def recordAcquire (l : CrdtObligationLedger NodeId) (id : ObligationId)
    (kind : ObligationKind) : LatticeState × CrdtObligationLedger NodeId :=
  let e := (l.entryOrNew id).recordAcquire l.localNode kind
  (e.state, l.put id e)

def recordResolve (l : CrdtObligationLedger NodeId) (id : ObligationId)
    (terminal : LatticeState) : LatticeState × CrdtObligationLedger NodeId :=
  let e := (l.entryOrNew id).recordResolve l.localNode terminal
  (e.state, l.put id e)

def recordCommit (l : CrdtObligationLedger NodeId) (id : ObligationId) :
    LatticeState × CrdtObligationLedger NodeId :=
  l.recordResolve id .committed

def recordAbort (l : CrdtObligationLedger NodeId) (id : ObligationId) :
    LatticeState × CrdtObligationLedger NodeId :=
  l.recordResolve id .aborted

def forceAbortRepair (l : CrdtObligationLedger NodeId) (id : ObligationId) :
    CrdtObligationLedger NodeId :=
  match l.entries[id]? with
  | none => l
  | some e => l.put id (e.forceAbortRepair l.localNode)

/-- Merges another ledger into this one, entry by entry. -/
def merge (l other : CrdtObligationLedger NodeId) : CrdtObligationLedger NodeId :=
  { l with
    entries :=
      OrderedMap.mergeInto CrdtObligationEntry.mergeEntry .new l.entries other.entries }

/-- The number of entries rewritten, and the ledger with them. -/
def compact (l : CrdtObligationLedger NodeId) : Nat × CrdtObligationLedger NodeId :=
  ((l.entries.toList.filter (fun entry => (entry.2.compact l.localNode).1)).length,
    { l with entries := l.entries.map (fun _ e => (e.compact l.localNode).2) })

/-- No entry violates linearity and none is a conflict. -/
def isSound (l : CrdtObligationLedger NodeId) : Bool :=
  l.entries.toList.all (fun entry => entry.2.isLinear && !entry.2.isConflict)

/-- The obligations with a linearity violation. -/
def linearityViolations (l : CrdtObligationLedger NodeId) : List ObligationId :=
  (l.entries.toList.filter (fun entry => !entry.2.isLinear)).map Prod.fst

end CrdtObligationLedger

/-- A local operation of a replica. -/
inductive LedgerOp where
  | acquire (id : ObligationId) (kind : ObligationKind)
  | commit (id : ObligationId)
  | abort (id : ObligationId)
  | repair (id : ObligationId)
  | compact
deriving DecidableEq, Repr

def LedgerOp.apply (op : LedgerOp) (l : CrdtObligationLedger NodeId) :
    CrdtObligationLedger NodeId :=
  match op with
  | .acquire id kind => (l.recordAcquire id kind).2
  | .commit id => (l.recordCommit id).2
  | .abort id => (l.recordAbort id).2
  | .repair id => l.forceAbortRepair id
  | .compact => l.compact.2

/-- The replicas of a cluster, before anything has happened. -/
def freshCluster {ι : Type} (node : ι → NodeId) :
    Gossip.Cluster ι (CrdtObligationLedger NodeId) :=
  { replica := fun i => .new (node i), published := [] }

/-- The cluster after the events: local operations of its replicas, the publication of
a replica's ledger and the merge of a published ledger into a replica. -/
def runCluster {ι : Type} [DecidableEq ι] (node : ι → NodeId)
    (events : List (Gossip.Event ι LedgerOp)) :
    Gossip.Cluster ι (CrdtObligationLedger NodeId) :=
  Gossip.run LedgerOp.apply CrdtObligationLedger.merge (freshCluster node) events

end Asupersync
