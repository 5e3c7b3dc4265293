import Asupersync.Lib.UnionFind
import Mathlib.Data.List.Destutter
import Mathlib.Data.List.Sort
import Mathlib.Data.Prod.Lex

/-!
# The e-graph of plans

Hash-consed nodes, a union-find over their classes, and the rebuild loop that
merges classes until congruent nodes share one.

Every function threads the graph, because looking up a representative compresses
paths, and returns nothing where the source panics: at an id that was never
issued, or when the arena would outgrow 32-bit indices.  The rebuild loop has
fuel; a run of the loop that needs more than one round for each class does not
exist (`rebuildHashcons_spec`).  A duration is a number of nanoseconds.
-/

namespace Asupersync

abbrev EClassId := Nat

inductive ENode where
  | leaf (label : String)
  | join (children : List EClassId)
  | race (children : List EClassId)
  | timeout (child : EClassId) (duration : Nat)
deriving DecidableEq, Repr

structure EClass where
  id : EClassId
  nodeIndices : List Nat
deriving DecidableEq, Repr

structure EGraph where
  nodeArena : List ENode
  classes : List EClass
  parent : List EClassId
  hashcons : List (ENode × EClassId)
deriving DecidableEq, Repr

/-- The largest value of a 32-bit arena index. -/
def arenaIndexMax : Nat := 4294967295

def arenaIndexFromLen (len : Nat) : Option Nat :=
  if len ≤ arenaIndexMax then some len else none

namespace EGraph

def new : EGraph := { nodeArena := [], classes := [], parent := [], hashcons := [] }

def find (g : EGraph) (id : EClassId) : Option (EClassId × EGraph) :=
  match Lib.UnionFind.find g.parent id with
  | none => none
  | some (root, parent) => some (root, { g with parent := parent })

/-- The representatives of the children, in their order. -/
def findAll (g : EGraph) : List EClassId → Option (List EClassId × EGraph)
  | [] => some ([], g)
  | id :: rest => do
    let (root, g) ← g.find id
    let (roots, g) ← g.findAll rest
    some (root :: roots, g)

def canonicalizeChildren (g : EGraph) (children : List EClassId) :
    Option (List EClassId × EGraph) := do
  let (canonical, g) ← g.findAll children
  some (canonical.insertionSort (· ≤ ·), g)

def canonicalizeEnode (g : EGraph) : ENode → Option (ENode × EGraph)
  | .leaf label => some (.leaf label, g)
  | .join children => do
    let (children, g) ← g.canonicalizeChildren children
    some (.join children, g)
  | .race children => do
    let (children, g) ← g.canonicalizeChildren children
    some (.race children, g)
  | .timeout child duration => do
    let (child, g) ← g.find child
    some (.timeout child duration, g)

def addEnode (g : EGraph) (node : ENode) : Option (EClassId × EGraph) := do
  let (canonical, g) ← g.canonicalizeEnode node
  match g.hashcons.lookup canonical with
  | some existing => g.find existing
  | none =>
    let arenaIdx ← arenaIndexFromLen g.nodeArena.length
    let id := g.classes.length
    some (id,
      { nodeArena := g.nodeArena ++ [canonical]
        classes := g.classes ++ [{ id := id, nodeIndices := [arenaIdx] }]
        parent := g.parent ++ [id]
        hashcons := (canonical, id) :: g.hashcons })

def addLeaf (g : EGraph) (label : String) : Option (EClassId × EGraph) :=
  g.addEnode (.leaf label)

def addJoin (g : EGraph) (children : List EClassId) : Option (EClassId × EGraph) :=
  g.addEnode (.join children)

def addRace (g : EGraph) (children : List EClassId) : Option (EClassId × EGraph) :=
  g.addEnode (.race children)

def addTimeout (g : EGraph) (child : EClassId) (duration : Nat) : Option (EClassId × EGraph) :=
  g.addEnode (.timeout child duration)

/-- The node indices of a class. -/
def nodeIndices (g : EGraph) (id : EClassId) : List Nat :=
  match g.classes[id]? with
  | none => []
  | some c => c.nodeIndices

def setNodeIndices (g : EGraph) (id : EClassId) (indices : List Nat) : EGraph :=
  { g with classes := g.classes.modify id (fun c => { c with nodeIndices := indices }) }

/-- Representative and whether anything changed. -/
def mergeInternal (g : EGraph) (a b : EClassId) : Option ((EClassId × Bool) × EGraph) := do
  let (rootA, g) ← g.find a
  let (rootB, g) ← g.find b
  if rootA = rootB then some ((rootA, false), g)
  else
    let (winner, loser) := if rootA ≤ rootB then (rootA, rootB) else (rootB, rootA)
    let g := { g with parent := g.parent.set loser winner }
    let moved := g.nodeIndices loser
    let g := g.setNodeIndices loser []
    some ((winner, true), g.setNodeIndices winner (g.nodeIndices winner ++ moved))

/-! ## Rebuilding -/

/-- What a pass has collected: the nodes of the current class, the indices it keeps, and
the pairs of classes to merge. -/
structure Scan where
  seen : List ENode
  rebuiltIndices : List Nat
  merges : List (EClassId × EClassId)
deriving DecidableEq, Repr

/-- A node that was not seen before keeps its index. -/
def keepIndex (seen : List ENode × List Nat) (ni : Nat) (canonical : ENode) :
    List ENode × List Nat :=
  if canonical ∈ seen.1 then seen else (canonical :: seen.1, seen.2 ++ [ni])

/-- The smaller id first. -/
def orderedPair (a b : EClassId) : EClassId × EClassId := if a ≤ b then (a, b) else (b, a)

/-- Enter a node into the table, or note that its class has to be merged with that of
the entry. -/
def enterNode (id : EClassId) (canonical : ENode) (merges : List (EClassId × EClassId))
    (g : EGraph) : Option (List (EClassId × EClassId) × EGraph) :=
  match g.hashcons.lookup canonical with
  | some existing => do
    let (existingRoot, g) ← g.find existing
    let (idRoot, g) ← g.find id
    if existingRoot ≠ idRoot then some (merges ++ [orderedPair existingRoot idRoot], g)
    else some (merges, g)
  | none => some (merges, { g with hashcons := (canonical, id) :: g.hashcons })

def scanNode (id : EClassId) (state : Scan × EGraph) (ni : Nat) : Option (Scan × EGraph) := do
  let (s, g) := state
  let node ← g.nodeArena[ni]?
  let (canonical, g) ← g.canonicalizeEnode node
  let g := { g with nodeArena := g.nodeArena.set ni canonical }
  let (seen, rebuiltIndices) := keepIndex (s.seen, s.rebuiltIndices) ni canonical
  let (merges, g) ← enterNode id canonical s.merges g
  some (⟨seen, rebuiltIndices, merges⟩, g)

/-- One class of a pass; a class that is not a representative is skipped. -/
def scanClass (state : List (EClassId × EClassId) × EGraph) (idx : EClassId) :
    Option (List (EClassId × EClassId) × EGraph) := do
  let (merges, g) := state
  let (root, g) ← g.find idx
  if root ≠ idx then some (merges, g)
  else
    let indices := g.nodeIndices idx
    let g := g.setNodeIndices idx []
    let (s, g) ← indices.foldlM (scanNode idx) (⟨[], [], merges⟩, g)
    some (s.merges, g.setNodeIndices idx s.rebuiltIndices)

/-- A pass over all classes with an empty hash-cons table. -/
def scan (g : EGraph) : Option (List (EClassId × EClassId) × EGraph) :=
  (List.range g.classes.length).foldlM scanClass ([], { g with hashcons := [] })

/-- Sorted, without neighbours that are equal. -/
def sortMerges (merges : List (EClassId × EClassId)) : List (EClassId × EClassId) :=
  (merges.insertionSort (fun p q => toLex p ≤ toLex q)).destutter (· ≠ ·)

def applyMerges (g : EGraph) (merges : List (EClassId × EClassId)) : Option EGraph :=
  merges.foldlM (fun g (a, b) => (g.mergeInternal a b).map Prod.snd) g

def rebuildLoop : Nat → EGraph → Option EGraph
  | 0, _ => none
  | fuel + 1, g => do
    let (merges, g) ← g.scan
    if merges.isEmpty then some g
    else
      let g ← g.applyMerges (sortMerges merges)
      rebuildLoop fuel g

def rebuildHashcons (g : EGraph) : Option EGraph := rebuildLoop (g.classes.length + 1) g

def merge (g : EGraph) (a b : EClassId) : Option (EClassId × EGraph) := do
  let ((winner, _), g) ← g.mergeInternal a b
  let g ← g.rebuildHashcons
  some (winner, g)

/-- The nodes of the class of an id. -/
def classNodesCloned (g : EGraph) (id : EClassId) : Option (List ENode × EGraph) := do
  let (root, g) ← g.find id
  let c ← g.classes[root]?
  let nodes ← c.nodeIndices.mapM (fun idx => g.nodeArena[idx]?)
  some (nodes, g)

end EGraph

end Asupersync
