import Asupersync.Lib.OrderedMap
import Asupersync.Plan.Dag
import Asupersync.Types.Basic

/-!
# Static analysis of plan DAGs

The bottom-up analysis of obligations, cancellation and budgets, with a table of
the results found so far, and the side-condition queries the rewrite engine and
the certificate verifier ask of it.

The analysis descends through the children of a node before it records the node,
and it visits every node of the dag, reachable from the root or not.  Its
recursion is unguarded, so it is written with fuel.
-/

namespace Asupersync

def u32SaturatingAdd (a b : Nat) : Nat := min (a + b) u32Max

def u64SaturatingAdd (a b : Nat) : Nat := min (a + b) u64Max

inductive ObligationSafety where
  | clean
  | mayLeak
  | leaked
  | unknown
deriving DecidableEq, Repr

namespace ObligationSafety

/-- The least safe of two states. -/
def join : ObligationSafety → ObligationSafety → ObligationSafety
  | .unknown, _ => .unknown
  | _, .unknown => .unknown
  | .clean, .clean => .clean
  | .leaked, _ => .leaked
  | _, .leaked => .leaked
  | .mayLeak, _ => .mayLeak
  | _, .mayLeak => .mayLeak

def isSafe : ObligationSafety → Bool
  | .clean => true
  | _ => false

end ObligationSafety

inductive CancelSafety where
  | safe
  | mayOrphan
  | orphan
  | unknown
deriving DecidableEq, Repr

namespace CancelSafety

/-- The least safe of two states. -/
def join : CancelSafety → CancelSafety → CancelSafety
  | .unknown, _ => .unknown
  | _, .unknown => .unknown
  | .safe, .safe => .safe
  | .orphan, _ => .orphan
  | _, .orphan => .orphan
  | .mayOrphan, _ => .mayOrphan
  | _, .mayOrphan => .mayOrphan

def isSafe : CancelSafety → Bool
  | .safe => true
  | _ => false

end CancelSafety

/-- A bound in microseconds; nothing stands for no bound. -/
abbrev DeadlineMicros := Option Nat

namespace DeadlineMicros

def unbounded : DeadlineMicros := none

def zero : DeadlineMicros := some 0

def fromDuration (duration : Nat) : DeadlineMicros := some (Nat.min (duration / 1000) u64Max)

def min : DeadlineMicros → DeadlineMicros → DeadlineMicros
  | none, other => other
  | some a, none => some a
  | some a, some b => some (Nat.min a b)

def add : DeadlineMicros → DeadlineMicros → DeadlineMicros
  | some a, some b => some (u64SaturatingAdd a b)
  | _, _ => unbounded

def isAtLeastAsTightAs : DeadlineMicros → DeadlineMicros → Bool
  | _, none => true
  | none, some _ => false
  | some a, some b => a ≤ b

end DeadlineMicros

structure BudgetEffect where
  minPolls : Nat
  maxPolls : Option Nat
  hasDeadline : Bool
  parallelism : Nat
  minDeadline : DeadlineMicros
  maxDeadline : DeadlineMicros
deriving DecidableEq, Repr

namespace BudgetEffect

def leaf : BudgetEffect where
  minPolls := 1
  maxPolls := some 1
  hasDeadline := false
  parallelism := 1
  minDeadline := DeadlineMicros.unbounded
  maxDeadline := DeadlineMicros.unbounded

def unknown : BudgetEffect where
  minPolls := 0
  maxPolls := none
  hasDeadline := false
  parallelism := 1
  minDeadline := DeadlineMicros.unbounded
  maxDeadline := DeadlineMicros.unbounded

/-- The maximum of the polls does not grow, where it was bounded. -/
def maxPollsNotWorse (after before : Option Nat) : Bool :=
  match before, after with
  | none, _ => true
  | some maxBefore, some maxAfter => maxAfter ≤ maxBefore
  | some _, none => false

def isNotWorseThan (after before : BudgetEffect) : Bool :=
  if before.hasDeadline && !after.hasDeadline then false
  else if after.minPolls > before.minPolls then false
  else if !maxPollsNotWorse after.maxPolls before.maxPolls then false
  else after.minDeadline.isAtLeastAsTightAs before.minDeadline

end BudgetEffect

def parallelMaxPolls : Option Nat → Option Nat → Option Nat
  | some a, some b => some (Nat.min a b)
  | some a, none => some a
  | none, some a => some a
  | none, none => none

structure ObligationFlow where
  reserves : List String
  mustResolve : List String
  leakOnCancel : List String
  allPathsResolve : Bool
deriving DecidableEq, Repr

namespace ObligationFlow

def empty : ObligationFlow where
  reserves := []
  mustResolve := []
  leakOnCancel := []
  allPathsResolve := true

def leafWithObligation (name : String) : ObligationFlow where
  reserves := [name]
  mustResolve := [name]
  leakOnCancel := [name]
  allPathsResolve := true

/-- The first occurrence of every entry, in order. -/
def dedupeVec (names : List String) : List String := names.eraseDups

def dedupe (flow : ObligationFlow) : ObligationFlow :=
  { flow with
    reserves := dedupeVec flow.reserves
    mustResolve := dedupeVec flow.mustResolve
    leakOnCancel := dedupeVec flow.leakOnCancel }

def join (flow other : ObligationFlow) : ObligationFlow :=
  dedupe
    { reserves := flow.reserves ++ other.reserves
      mustResolve := flow.mustResolve ++ other.mustResolve
      leakOnCancel := flow.leakOnCancel ++ other.leakOnCancel
      allPathsResolve := flow.allPathsResolve && other.allPathsResolve }

/-- What the losers of a race still have to resolve may leak. -/
def race (flow other : ObligationFlow) : ObligationFlow :=
  let mustResolve := flow.mustResolve ++ other.mustResolve
  dedupe
    { reserves := flow.reserves ++ other.reserves
      mustResolve := mustResolve
      leakOnCancel := flow.leakOnCancel ++ other.leakOnCancel ++ mustResolve
      allPathsResolve := flow.allPathsResolve && other.allPathsResolve && mustResolve.isEmpty }

def effectiveSafety (flow : ObligationFlow) : ObligationSafety :=
  let safety :=
    if !flow.leakOnCancel.isEmpty then ObligationSafety.clean.join .mayLeak else .clean
  if !flow.allPathsResolve && !flow.mustResolve.isEmpty then safety.join .leaked else safety

end ObligationFlow

structure NodeAnalysis where
  obligation : ObligationSafety
  obligationFlow : ObligationFlow
  cancel : CancelSafety
  budget : BudgetEffect
deriving DecidableEq, Repr

namespace NodeAnalysis

def effectiveObligation (analysis : NodeAnalysis) : ObligationSafety :=
  analysis.obligation.join analysis.obligationFlow.effectiveSafety

/-- What is known of a node that is not there. -/
def missing : NodeAnalysis where
  obligation := .unknown
  obligationFlow := ObligationFlow.empty
  cancel := .unknown
  budget := BudgetEffect.unknown

/-- Labels that start with `obl:` carry an obligation. -/
def ofLeaf (label : String) : NodeAnalysis where
  obligation := .clean
  obligationFlow :=
    if "obl:".isPrefixOf label then ObligationFlow.leafWithObligation label
    else ObligationFlow.empty
  cancel := .safe
  budget := BudgetEffect.leaf

def ofJoin (children : List NodeAnalysis) : NodeAnalysis where
  obligation := (children.map (·.obligation)).foldl ObligationSafety.join .clean
  obligationFlow := (children.map (·.obligationFlow)).foldl ObligationFlow.join ObligationFlow.empty
  cancel := (children.map (·.cancel)).foldl CancelSafety.join .safe
  budget :=
    { minPolls := (children.map (·.budget.minPolls)).foldl u32SaturatingAdd 0
      maxPolls := children.foldlM
        (fun acc a => a.budget.maxPolls.map fun polls => u32SaturatingAdd acc polls) 0
      hasDeadline := children.any (·.budget.hasDeadline)
      parallelism := max ((children.map (·.budget.parallelism)).foldl u32SaturatingAdd 0) 1
      minDeadline := (children.map (·.budget.minDeadline)).foldl DeadlineMicros.min
        DeadlineMicros.unbounded
      maxDeadline := (children.map (·.budget.maxDeadline)).foldl DeadlineMicros.add
        DeadlineMicros.zero }

/-- A race of several children is safe only over children that are safe. -/
def raceCancel (children : List NodeAnalysis) : CancelSafety :=
  let childCancel := (children.map (·.cancel)).foldl CancelSafety.join .safe
  if children.length ≤ 1 then childCancel
  else if childCancel.isSafe && children.all (·.obligation.isSafe) then .safe
  else childCancel.join .mayOrphan

def ofRace (children : List NodeAnalysis) : NodeAnalysis :=
  let obligation := (children.map (·.obligation)).foldl ObligationSafety.join .clean
  let cancel := raceCancel children
  let flow := (children.map (·.obligationFlow)).foldl ObligationFlow.race ObligationFlow.empty
  { obligation := if flow.leakOnCancel.isEmpty then obligation else obligation.join .mayLeak
    obligationFlow := flow
    cancel := if flow.leakOnCancel.isEmpty then cancel else cancel.join .mayOrphan
    budget :=
      { minPolls := (children.map (·.budget.minPolls)).min?.getD 0
        maxPolls := children.foldl (fun acc a => parallelMaxPolls acc a.budget.maxPolls) none
        hasDeadline := children.any (·.budget.hasDeadline)
        parallelism := max ((children.map (·.budget.parallelism)).foldl u32SaturatingAdd 0) 1
        minDeadline := (children.map (·.budget.minDeadline)).foldl DeadlineMicros.min
          DeadlineMicros.unbounded
        maxDeadline := (children.map (·.budget.maxDeadline)).foldl DeadlineMicros.min
          DeadlineMicros.unbounded } }

def ofTimeout (duration : Nat) (child : NodeAnalysis) : NodeAnalysis :=
  let flow :=
    { child.obligationFlow with
      leakOnCancel := ObligationFlow.dedupeVec
        (child.obligationFlow.leakOnCancel ++ child.obligationFlow.mustResolve) }
  let cancel :=
    if child.cancel.isSafe && child.obligation.isSafe then .safe
    else child.cancel.join .mayOrphan
  let deadline := DeadlineMicros.fromDuration duration
  { obligation :=
      if flow.leakOnCancel.isEmpty then child.obligation else child.obligation.join .mayLeak
    obligationFlow := flow
    cancel := if flow.leakOnCancel.isEmpty then cancel else cancel.join .mayOrphan
    budget :=
      { minPolls := child.budget.minPolls
        maxPolls := child.budget.maxPolls
        hasDeadline := true
        parallelism := child.budget.parallelism
        minDeadline := child.budget.minDeadline.min deadline
        maxDeadline := deadline } }

end NodeAnalysis

/-- The analysed nodes by index. -/
abbrev PlanAnalysis := Std.ExtTreeMap Nat NodeAnalysis

namespace PlanAnalyzer

/-- The children one after another, each with the table the earlier ones left. -/
def analyzeChildren (analyze : Nat → PlanAnalysis → Option (NodeAnalysis × PlanAnalysis))
    (children : List Nat) (results : PlanAnalysis) : Option (List NodeAnalysis × PlanAnalysis) :=
  children.foldlM
    (fun (analyses, results) child => do
      let (analysis, results) ← analyze child results
      some (analyses ++ [analysis], results))
    ([], results)

/-- The analysis of a node that is not in the table yet. -/
def analyzeFresh (dag : PlanDag)
    (analyze : Nat → PlanAnalysis → Option (NodeAnalysis × PlanAnalysis)) (id : Nat)
    (results : PlanAnalysis) : Option (NodeAnalysis × PlanAnalysis) :=
  match dag.node id with
  | none => some (NodeAnalysis.missing, results)
  | some (.leaf label) => some (NodeAnalysis.ofLeaf label, results)
  | some (.join children) => do
    let (analyses, results) ← analyzeChildren analyze children results
    some (NodeAnalysis.ofJoin analyses, results)
  | some (.race children) => do
    let (analyses, results) ← analyzeChildren analyze children results
    some (NodeAnalysis.ofRace analyses, results)
  | some (.timeout child duration) => do
    let (analysis, results) ← analyze child results
    some (NodeAnalysis.ofTimeout duration analysis, results)

def analyzeNode (dag : PlanDag) :
    Nat → Nat → PlanAnalysis → Option (NodeAnalysis × PlanAnalysis)
  | 0, _, _ => none
  | fuel + 1, id, results =>
    match results[id]? with
    | some existing => some (existing, results)
    | none => do
      let (analysis, results) ← analyzeFresh dag (analyzeNode dag fuel) id results
      some (analysis, results.insert id analysis)

/-- The table of the nodes below the root. -/
def analyzeRoot (fuel : Nat) (dag : PlanDag) : Option PlanAnalysis :=
  match dag.root with
  | some root => (analyzeNode dag fuel root ∅).map (·.2)
  | none => some ∅

/-- The nodes below the root first, then every node that is not there yet. -/
def analyze (fuel : Nat) (dag : PlanDag) : Option PlanAnalysis := do
  let results ← analyzeRoot fuel dag
  (List.range dag.nodes.length).foldlM
    (fun results idx =>
      if results.contains idx then some results
      else (analyzeNode dag fuel idx results).map (·.2))
    results

end PlanAnalyzer

structure SideConditionChecker where
  dag : PlanDag
  analysis : PlanAnalysis

namespace SideConditionChecker

def new (fuel : Nat) (dag : PlanDag) : Option SideConditionChecker := do
  let analysis ← PlanAnalyzer.analyze fuel dag
  some { dag := dag, analysis := analysis }

def get (checker : SideConditionChecker) (id : Nat) : Option NodeAnalysis := checker.analysis[id]?

def obligationsSafe (checker : SideConditionChecker) (id : Nat) : Bool :=
  (checker.get id).any fun a => a.effectiveObligation.isSafe

def cancelSafe (checker : SideConditionChecker) (id : Nat) : Bool :=
  (checker.get id).any fun a => a.cancel.isSafe

/-- A query about both ends of a rewrite fails where one of them was not analysed. -/
def compare (checker : SideConditionChecker) (before after : Nat)
    (query : NodeAnalysis → NodeAnalysis → Bool) : Bool :=
  match checker.get before, checker.get after with
  | some beforeA, some afterA => query beforeA afterA
  | _, _ => false

def rewritePreservesBudget (checker : SideConditionChecker) (before after : Nat) : Bool :=
  checker.compare before after fun beforeA afterA => afterA.budget.isNotWorseThan beforeA.budget

def rewritePreservesLoserDrain (checker : SideConditionChecker) (before after : Nat) : Bool :=
  checker.compare before after fun beforeA afterA =>
    if !afterA.cancel.isSafe && beforeA.cancel.isSafe then false
    else afterA.obligationFlow.leakOnCancel.all (beforeA.obligationFlow.leakOnCancel.contains ·)

def rewriteNoNewObligationLeaks (checker : SideConditionChecker) (before after : Nat) : Bool :=
  checker.compare before after fun beforeA afterA =>
    let bf := beforeA.obligationFlow
    let af := afterA.obligationFlow
    if beforeA.effectiveObligation.isSafe && !afterA.effectiveObligation.isSafe then false
    else if bf.allPathsResolve && !af.allPathsResolve then false
    else if !af.leakOnCancel.all (bf.leakOnCancel.contains ·) then false
    else bf.mustResolve.all fun obl =>
      !(!af.mustResolve.contains obl &&
        (af.leakOnCancel.contains obl || af.reserves.contains obl))

/-- A unit of the finalize order holds obligations. -/
def bearsObligations (checker : SideConditionChecker) (id : Nat) : Bool :=
  (checker.get id).any fun a =>
    !a.obligationFlow.mustResolve.isEmpty || !a.obligationFlow.leakOnCancel.isEmpty

def collectObligationFinalizeOrder (checker : SideConditionChecker) :
    Nat → Nat → List Nat → Option (List Nat)
  | 0, _, _ => none
  | fuel + 1, id, order =>
    match checker.dag.node id with
    | some (.join children) =>
      children.foldlM
        (fun order child => collectObligationFinalizeOrder checker fuel child order) order
    | _ => some (if checker.bearsObligations id then order ++ [id] else order)

def obligationFinalizeOrder (fuel : Nat) (checker : SideConditionChecker) (children : List Nat) :
    Option (List Nat) :=
  children.foldlM (fun order child => checker.collectObligationFinalizeOrder fuel child order) []

def rewritePreservesFinalizeOrder (fuel : Nat) (checker : SideConditionChecker)
    (before after : Nat) : Option Bool :=
  match checker.dag.node before, checker.dag.node after with
  | some (.join beforeCh), some (.join afterCh) => do
    let beforeObl ← checker.obligationFinalizeOrder fuel beforeCh
    let afterObl ← checker.obligationFinalizeOrder fuel afterCh
    some (beforeObl == afterObl)
  | some (.race _), some (.join _) => some true
  | some (.race _), some (.race _) => some true
  | some (.timeout _ _), some (.timeout _ _) => some true
  | some (.leaf _), some (.leaf _) => some true
  | _, _ => some false

/-- The visited ids in the order of the walk; their set guards the recursion. -/
def reachableInner (checker : SideConditionChecker) :
    Nat → Nat → List Nat → Option (List Nat)
  | 0, _, _ => none
  | fuel + 1, id, visited =>
    if id ∈ visited then
      some visited
    else
      match checker.dag.node id with
      | none => some (visited ++ [id])
      | some node =>
        node.children.foldlM
          (fun visited child => reachableInner checker fuel child visited) (visited ++ [id])

def reachable (fuel : Nat) (checker : SideConditionChecker) (id : Nat) : Option (List Nat) :=
  checker.reachableInner fuel id []

def areIndependent (fuel : Nat) (checker : SideConditionChecker) (a b : Nat) : Option Bool := do
  let reachableA ← checker.reachable fuel a
  let reachableB ← checker.reachable fuel b
  some (reachableA.all fun id => !reachableB.contains id)

def childrenPairwiseIndependent (fuel : Nat) (checker : SideConditionChecker) :
    List Nat → Option Bool
  | [] => some true
  | a :: rest => do
    if ← rest.allM (checker.areIndependent fuel a) then
      checker.childrenPairwiseIndependent fuel rest
    else
      some false

end SideConditionChecker

end Asupersync
