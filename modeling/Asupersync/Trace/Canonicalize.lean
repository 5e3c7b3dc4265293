import Asupersync.Lib.TraceTheory
import Asupersync.Trace.Event
import Asupersync.Util.DetHash
import Mathlib.Data.List.FinRange

/-!
# Canonical traces

The Foata normal form of a trace, its fingerprint, and the trace monoid built on
it.  Layers are assigned by the library's `assignLayers` at the independence of
events; within a layer events are sorted by their key with a stable sort.

The components of a sort key are natural numbers; the hasher writes them with the
width the source gives them.
-/

namespace Asupersync

open Lib.TraceTheory

/-- Independence of events, as a relation. -/
abbrev Indep (a b : TraceEvent) : Prop := independent a b = true

/-- Stable across versions: new kinds come last. -/
def kindDiscriminant : TraceEventKind → UInt8
  | .spawn => 0
  | .schedule => 1
  | .yield => 2
  | .wake => 3
  | .poll => 4
  | .complete => 5
  | .cancelRequest => 6
  | .cancelAck => 7
  | .regionCloseBegin => 8
  | .regionCloseComplete => 9
  | .regionCreated => 10
  | .regionCancelled => 11
  | .obligationReserve => 12
  | .obligationCommit => 13
  | .obligationAbort => 14
  | .obligationLeak => 15
  | .timeAdvance => 16
  | .timerScheduled => 17
  | .timerFired => 18
  | .timerCancelled => 19
  | .ioRequested => 20
  | .ioReady => 21
  | .ioResult => 22
  | .ioError => 23
  | .rngSeed => 24
  | .rngValue => 25
  | .checkpoint => 26
  | .futurelockDetected => 27
  | .chaosInjection => 28
  | .userTrace => 29
  | .monitorCreated => 30
  | .monitorDropped => 31
  | .downDelivered => 32
  | .linkCreated => 33
  | .linkDropped => 34
  | .exitDelivered => 35
  | .workerCancelRequested => 36
  | .workerCancelAcknowledged => 37
  | .workerDrainStarted => 38
  | .workerDrainCompleted => 39
  | .workerFinalizeCompleted => 40

def packArena (idx : ArenaIndex) : Nat := idx.index.toNat <<< 32 ||| idx.generation.toNat

/-- Kind, primary, secondary and tertiary component, compared in this order. -/
abbrev SortKey := Nat ×ₗ Nat ×ₗ Nat ×ₗ Nat

def SortKey.mk (kind primary secondary tertiary : Nat) : SortKey :=
  toLex (kind, toLex (primary, toLex (secondary, tertiary)))

def eventSortKey (event : TraceEvent) : SortKey :=
  let k := (kindDiscriminant event.kind).toNat
  match event.data with
  | .task task region | .cancel task region _ | .futurelock task region _ _ =>
    .mk k (packArena task.arenaIndex) (packArena region.arenaIndex) 0
  | .region region parent =>
    .mk k (packArena region.arenaIndex)
      (parent.elim 0 (fun p => packArena p.arenaIndex)) 0
  | .regionCancel region _ => .mk k (packArena region.arenaIndex) 0 0
  | .obligation obligation task region _ _ _ _ =>
    .mk k (packArena obligation.arenaIndex) (packArena task.arenaIndex)
      (packArena region.arenaIndex)
  | .time old new => .mk k old new 0
  | .timer timerId _ => .mk k timerId.toNat 0 0
  | .ioRequested token _ | .ioReady token _ => .mk k token.toNat 0 0
  -- Flipping the sign bit keeps the order of the signed byte counts.
  | .ioResult token bytes => .mk k token.toNat (bytes.toUInt64 ^^^ ((1 : UInt64) <<< 63)).toNat 0
  | .ioError token kind => .mk k token.toNat kind.toNat 0
  | .rngSeed seed => .mk k seed.toNat 0 0
  | .rngValue value => .mk k value.toNat 0 0
  | .checkpoint sequence activeTasks activeRegions =>
    .mk k sequence.toNat activeTasks.toNat activeRegions.toNat
  | .chaos _ task _ => .mk k (task.elim 0 (fun t => packArena t.arenaIndex)) 0 0
  | .message msg => .mk k (DetHasher.default.writeStr msg).finish.toNat 0 0
  | .monitor monitorRef watcher _ monitored =>
    .mk k monitorRef.toNat (packArena watcher.arenaIndex) (packArena monitored.arenaIndex)
  | .down monitorRef _ monitored completionVt _ =>
    .mk k completionVt (packArena monitored.arenaIndex) monitorRef.toNat
  | .link linkRef taskA _ taskB _ =>
    .mk k linkRef.toNat (packArena taskA.arenaIndex) (packArena taskB.arenaIndex)
  | .exit linkRef fromTask _ failureVt _ =>
    .mk k failureVt (packArena fromTask.arenaIndex) linkRef.toNat
  | .worker _ jobId _ _ task region _ =>
    .mk k jobId.toNat (packArena task.arenaIndex) (packArena region.arenaIndex)
  | .none => .mk k 0 0 0

/-- The order in which a layer is sorted. -/
abbrev eventLe (a b : TraceEvent) : Prop := eventSortKey a ≤ eventSortKey b

/-- Equality of what an event says, without its envelope. -/
def semanticallyEqualEvent (a b : TraceEvent) : Bool :=
  decide (a.version = b.version) && decide (a.kind = b.kind) && decide (a.data = b.data)

def eventHashKey (event : TraceEvent) : SortKey := eventSortKey event

/-- The key is hashed as a tuple, component by component. -/
def hashKey (h : DetHasher) (key : SortKey) : DetHasher :=
  let (kind, rest) := ofLex key
  let (primary, rest) := ofLex rest
  let (secondary, tertiary) := ofLex rest
  (((h.writeU8 (UInt8.ofNat kind)).writeU64 (UInt64.ofNat primary)).writeU64
    (UInt64.ofNat secondary)).writeU64 (UInt64.ofNat tertiary)

/-- Number, size and keys of a layer. -/
def hashLayer (h : DetHasher) (layerIdx : Nat) (keys : List SortKey) : DetHasher :=
  keys.foldl hashKey ((h.writeUsize layerIdx).writeUsize keys.length)

/-- The hash of all layers, numbered from zero. -/
def hashLayers (layers : List (List SortKey)) : UInt64 :=
  (layers.zipIdx.foldl (fun h layer => hashLayer h layer.2 layer.1) DetHasher.default).finish

/-- Layers of mutually independent events. -/
structure FoataTrace where
  layers : List (List TraceEvent)
deriving DecidableEq, Repr

namespace FoataTrace

def depth (t : FoataTrace) : Nat := t.layers.length

def isEmpty (t : FoataTrace) : Bool := t.layers.isEmpty

/-- Back into a sequence. -/
def flatten (t : FoataTrace) : List TraceEvent := t.layers.flatten

def fingerprint (t : FoataTrace) : UInt64 :=
  hashLayers (t.layers.map (fun layer => layer.map eventHashKey))

end FoataTrace

def maxLayer (assigned : List (TraceEvent × Nat)) : Nat :=
  assigned.foldl (fun layer p => max layer p.2) 0

/-- The events of a layer, in the order of the trace. -/
def layerEvents (assigned : List (TraceEvent × Nat)) (k : Nat) : List TraceEvent :=
  (assigned.filter (fun p => p.2 = k)).map Prod.fst

def canonicalize (events : List TraceEvent) : FoataTrace :=
  if events.isEmpty then ⟨[]⟩
  else
    let assigned := assignLayers Indep events
    ⟨(List.range (maxLayer assigned + 1)).map
      (fun k => (layerEvents assigned k).insertionSort eventLe)⟩

/-- The positions of the events of a layer, in increasing order. -/
def layerIndices (events : List TraceEvent) (k : Nat) : List (Fin events.length) :=
  let layerOf := (assignLayers Indep events).map Prod.snd
  (List.finRange events.length).filter (fun i => layerOf[i.val]? = some k)

/-- The fingerprint without the canonical trace: positions are grouped and sorted. -/
def traceFingerprint (events : List TraceEvent) : UInt64 :=
  if events.isEmpty then FoataTrace.fingerprint ⟨[]⟩
  else
    hashLayers ((List.range (maxLayer (assignLayers Indep events) + 1)).map (fun k =>
      ((layerIndices events k).insertionSort
        (fun i j => eventLe (events.get i) (events.get j))).map
          (fun i => eventHashKey (events.get i))))

/-! ## The trace monoid -/

/-- A canonical trace with its fingerprint. -/
structure TraceMonoid where
  canonical : FoataTrace
  fingerprint : UInt64
  fingerprint_eq : fingerprint = canonical.fingerprint

namespace TraceMonoid

/-- The empty trace. -/
def identity : TraceMonoid := ⟨⟨[]⟩, FoataTrace.fingerprint ⟨[]⟩, rfl⟩

def fromEvents (events : List TraceEvent) : TraceMonoid :=
  ⟨canonicalize events, (canonicalize events).fingerprint, rfl⟩

def isIdentity (t : TraceMonoid) : Bool := t.canonical.isEmpty

def concat (t other : TraceMonoid) : TraceMonoid :=
  if t.isIdentity then other
  else if other.isIdentity then t
  else fromEvents (t.canonical.flatten ++ other.canonical.flatten)

/-- Comparison of the layers, event by event. -/
def equivalentExact (t other : TraceMonoid) : Bool :=
  if t.canonical.depth ≠ other.canonical.depth then false
  else
    (t.canonical.layers.zip other.canonical.layers).all (fun (la, lb) =>
      decide (la.length = lb.length) &&
        (la.zip lb).all (fun (ea, eb) => semanticallyEqualEvent ea eb))

/-- Fingerprints first, then the layers. -/
def eq (t other : TraceMonoid) : Bool :=
  if t.fingerprint ≠ other.fingerprint then false else t.equivalentExact other

instance : BEq TraceMonoid := ⟨eq⟩

end TraceMonoid

end Asupersync
