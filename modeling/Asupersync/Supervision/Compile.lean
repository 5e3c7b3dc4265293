import Mathlib.Data.List.MinMax
import Mathlib.Data.List.Sort
import Asupersync.Types.Basic

/-!
# Compiling a supervisor

A supervisor is described by its children, each with a name and the names of the
children it depends on.  Compiling it checks the names and the dependencies and
computes the order in which the children start, by Kahn's algorithm with a
deterministic choice among the children that are ready.

Names are compared, looked up and sorted and nothing else, so they come from any
linear order.  The vectors that the algorithm indexes by child are functions on
indices here, and the set of ready keys is a list without repetitions.
-/

namespace Asupersync

universe u

/-- Which children restart when one of them fails. -/
inductive RestartPolicy where
  | oneForOne
  | oneForAll
  | restForOne
deriving DecidableEq, Repr

/-- How the next child is chosen among those that are ready. -/
inductive StartTieBreak where
  | insertionOrder
  | nameLex
deriving DecidableEq, Repr

structure ChildSpec (ν : Type u) where
  name : ν
  dependsOn : List ν
  startImmediately : Bool
deriving DecidableEq

/-- Why a supervisor does not compile. -/
inductive SupervisorCompileError (ν : Type u) where
  | duplicateChildName (name : ν)
  | unknownDependency (child dependsOn : ν)
  | deferredDependency (child dependsOn : ν)
  | cycleDetected (remaining : List ν)
deriving DecidableEq

structure SupervisorBuilder (ν : Type u) where
  name : ν
  budget : Option Budget
  tieBreak : StartTieBreak
  restartPolicy : RestartPolicy
  children : List (ChildSpec ν)

structure CompiledSupervisor (ν : Type u) where
  name : ν
  budget : Option Budget
  tieBreak : StartTieBreak
  restartPolicy : RestartPolicy
  children : List (ChildSpec ν)
  startOrder : List Nat

/-- A child that is ready to start. -/
structure ReadyKey (ν : Type u) where
  name : ν
  idx : Nat
deriving DecidableEq

/-- How many dependencies each child waits for, and who waits for each child. -/
structure Links where
  indeg : Nat → Nat
  out : Nat → List Nat

/-- The state of the loop that computes the start order. -/
structure StartProgress (ν : Type u) where
  indeg : Nat → Nat
  ready : List (ReadyKey ν)
  order : List Nat

namespace CompiledSupervisor

variable {ν : Type u} [LinearOrder ν]

/-- The map from names to indices, unless a name occurs twice. -/
def nameToIdx : List (ChildSpec ν) → Nat → (ν → Option Nat) →
    Except (SupervisorCompileError ν) (ν → Option Nat)
  | [], _, names => .ok names
  | child :: children, idx, names =>
    if (names child.name).isSome then .error (.duplicateChildName child.name)
    else nameToIdx children (idx + 1) (Function.update names child.name (some idx))

section Link

variable (children : List (ChildSpec ν)) (names : ν → Option Nat)

/-- Links child `idx` to its dependencies, each of them once. -/
def linkChild (idx : Nat) (child : ChildSpec ν) : List ν → List ν → Links →
    Except (SupervisorCompileError ν) Links
  | [], _, links => .ok links
  | dep :: deps, seen, links =>
    if dep ∈ seen then linkChild idx child deps seen links
    else match names dep with
      | none => .error (.unknownDependency child.name dep)
      | some depIdx =>
        if child.startImmediately && !(children[depIdx]?.all (·.startImmediately)) then
          .error (.deferredDependency child.name dep)
        else
          linkChild idx child deps (dep :: seen)
            { indeg := Function.update links.indeg idx (links.indeg idx + 1)
              out := Function.update links.out depIdx (links.out depIdx ++ [idx]) }

def linkChildren : List (ChildSpec ν) → Nat → Links → Except (SupervisorCompileError ν) Links
  | [], _, links => .ok links
  | child :: rest, idx, links =>
    match linkChild children names idx child child.dependsOn [] links with
    | .error e => .error e
    | .ok links => linkChildren rest (idx + 1) links

end Link

/-- The ready key that starts next. -/
def nextReady : StartTieBreak → List (ReadyKey ν) → Option (ReadyKey ν)
  | .insertionOrder, ready => ready.argmin fun key => toLex (key.idx, key.name)
  | .nameLex, ready => ready.argmin fun key => toLex (key.name, key.idx)

/-- The children that wait for nothing. -/
def initialReady (indeg : Nat → Nat) : List (ChildSpec ν) → Nat → List (ReadyKey ν)
  | [], _ => []
  | child :: children, idx =>
    if indeg idx = 0 then ⟨child.name, idx⟩ :: initialReady indeg children (idx + 1)
    else initialReady indeg children (idx + 1)

section Loop

variable (children : List (ChildSpec ν))

/-- One dependency of child `succ` has started. -/
def release (progress : StartProgress ν) (succ : Nat) : StartProgress ν :=
  { progress with
    indeg := Function.update progress.indeg succ (progress.indeg succ - 1)
    ready :=
      if progress.indeg succ - 1 = 0 then
        (children[succ]?).elim progress.ready fun child => progress.ready.insert ⟨child.name, succ⟩
      else progress.ready }

/-- Starts one child and releases those that wait for it. -/
def startChild (out : Nat → List Nat) (next : ReadyKey ν) (progress : StartProgress ν) :
    StartProgress ν :=
  (out next.idx).foldl (release children)
    { progress with ready := progress.ready.erase next, order := progress.order ++ [next.idx] }

/-- The loop, for at most `fuel` rounds. -/
def startLoop (tieBreak : StartTieBreak) (out : Nat → List Nat) :
    Nat → StartProgress ν → Option (StartProgress ν)
  | 0, _ => none
  | fuel + 1, progress =>
    match nextReady tieBreak progress.ready with
    | none => some progress
    | some next => startLoop tieBreak out fuel (startChild children out next progress)

end Loop

/-- The names of the children that still wait, sorted. -/
def remaining (indeg : Nat → Nat) (children : List (ChildSpec ν)) : List ν :=
  ((children.zipIdx.filter fun p => 0 < indeg p.2).map fun p => p.1.name).insertionSort (· ≤ ·)

/-- What the loop's last state says about the supervisor. -/
def outcome (builder : SupervisorBuilder ν) (progress : StartProgress ν) :
    Except (SupervisorCompileError ν) (CompiledSupervisor ν) :=
  if progress.order.length ≠ builder.children.length then
    .error (.cycleDetected (remaining progress.indeg builder.children))
  else
    .ok
      { name := builder.name
        budget := builder.budget
        tieBreak := builder.tieBreak
        restartPolicy := builder.restartPolicy
        children := builder.children
        startOrder := progress.order }

/-- Compiles a supervisor.  One round of the loop for every child, and one more
to see that nothing is ready, are enough. -/
def new (builder : SupervisorBuilder ν) :
    Option (Except (SupervisorCompileError ν) (CompiledSupervisor ν)) :=
  match nameToIdx builder.children 0 (fun _ => none) with
  | .error e => some (.error e)
  | .ok names =>
    match linkChildren builder.children names builder.children 0 ⟨fun _ => 0, fun _ => []⟩ with
    | .error e => some (.error e)
    | .ok links =>
      (startLoop builder.children builder.tieBreak links.out (builder.children.length + 1)
        { indeg := links.indeg
          ready := initialReady links.indeg builder.children 0
          order := [] }).map (outcome builder)

end CompiledSupervisor

end Asupersync
