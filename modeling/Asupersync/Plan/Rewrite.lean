import Asupersync.Plan.Analysis

/-!
# Rewriting plan DAGs

The rewrite policy, the six rules, the side conditions, and the pass over the
original nodes that applies at each node the first rule that is permitted,
matches and passes its side conditions.

A rule pushes its new nodes and redirects every parent of the rewritten node,
and the root, to the last of them; the rewritten node itself stays where it is.
A rule that gives up has changed a scratch copy only, so it returns nothing.
The side conditions run the analysis, hence the fuel of the pass.
-/

namespace Asupersync

inductive AlgebraicLaw where
  | associativity
  | commutativity
  | distributivity
  | timeoutSimplification
deriving DecidableEq, Repr

inductive RewriteRule where
  | joinAssoc
  | raceAssoc
  | joinCommute
  | raceCommute
  | timeoutMin
  | dedupRaceJoin
deriving DecidableEq, Repr

def RewriteRule.requiredLaws : RewriteRule → List AlgebraicLaw
  | .joinAssoc => [.associativity]
  | .raceAssoc => [.associativity]
  | .joinCommute => [.commutativity]
  | .raceCommute => [.commutativity]
  | .timeoutMin => [.timeoutSimplification]
  | .dedupRaceJoin => [.distributivity]

structure RewritePolicy where
  associativity : Bool
  commutativity : Bool
  distributivity : Bool
  requireBinaryJoins : Bool
  timeoutSimplification : Bool
deriving DecidableEq, Repr

namespace RewritePolicy

def conservative : RewritePolicy where
  associativity := true
  commutativity := false
  distributivity := true
  requireBinaryJoins := true
  timeoutSimplification := true

def assumeAll : RewritePolicy where
  associativity := true
  commutativity := true
  distributivity := true
  requireBinaryJoins := false
  timeoutSimplification := true

def allowsAssociative (policy : RewritePolicy) : Bool := policy.associativity

def allowsCommutative (policy : RewritePolicy) : Bool := policy.commutativity

def allowsSharedNonLeaf (policy : RewritePolicy) : Bool :=
  policy.distributivity && !policy.requireBinaryJoins

def requiresBinaryJoins (policy : RewritePolicy) : Bool := policy.requireBinaryJoins

def allowsTimeoutSimplification (policy : RewritePolicy) : Bool := policy.timeoutSimplification

def allowsLaw (policy : RewritePolicy) : AlgebraicLaw → Bool
  | .associativity => policy.associativity
  | .commutativity => policy.commutativity
  | .distributivity => policy.distributivity
  | .timeoutSimplification => policy.timeoutSimplification

def permits (policy : RewritePolicy) (rule : RewriteRule) : Bool :=
  rule.requiredLaws.all policy.allowsLaw

end RewritePolicy

structure RewriteStep where
  rule : RewriteRule
  before : Nat
  after : Nat
  detail : String
deriving DecidableEq, Repr

/-- The two combinators over a list of children. -/
inductive Combinator where
  | join
  | race
deriving DecidableEq, Repr

namespace Combinator

def node : Combinator → List Nat → PlanNode
  | .join, children => .join children
  | .race, children => .race children

/-- The children of a node of this combinator. -/
def childrenOf : Combinator → PlanNode → Option (List Nat)
  | .join, .join children => some children
  | .race, .race children => some children
  | _, _ => none

def name : Combinator → String
  | .join => "Join"
  | .race => "Race"

def word : Combinator → String
  | .join => "join"
  | .race => "race"

end Combinator

def sortIds (ids : List Nat) : List Nat := ids.insertionSort (· ≤ ·)

/-- One child of a node redirected from `old` to `new`. -/
def redirectId (old new child : Nat) : Nat := if child = old then new else child

def PlanNode.redirect (old new : Nat) : PlanNode → PlanNode
  | .leaf label => .leaf label
  | .join children => .join (children.map (redirectId old new))
  | .race children => .race (children.map (redirectId old new))
  | .timeout child duration => .timeout (redirectId old new child) duration

namespace PlanDag

/-- The parents of a node, once for every edge. -/
def parentMap (dag : PlanDag) (target : Nat) : List Nat :=
  dag.nodes.zipIdx.flatMap fun (node, idx) =>
    (node.children.filter (· = target)).map fun _ => idx

def replaceParents (dag : PlanDag) (old new : Nat) : PlanDag :=
  { dag with
    nodes := (dag.parentMap old).foldl
      (fun nodes parent => nodes.modify parent (PlanNode.redirect old new)) dag.nodes }

/-- The end of every rule: parents and root move from `before` to `after`. -/
def finishRewrite (dag : PlanDag) (rule : RewriteRule) (before after : Nat) (detail : String) :
    PlanDag × RewriteStep :=
  let dag := dag.replaceParents before after
  (if dag.root = some before then { dag with root := some after } else dag,
    { rule := rule, before := before, after := after, detail := detail })

/-- The children with those of the same combinator replaced by their own children. -/
def flatten (dag : PlanDag) (op : Combinator) (children : List Nat) :
    Option (List Nat × Bool) :=
  children.foldlM
    (fun (flattened, changed) child => do
      let node ← dag.node child
      match op.childrenOf node with
      | some inner => some (flattened ++ inner, true)
      | none => some (flattened ++ [child], changed))
    ([], false)

def rewriteAssoc (dag : PlanDag) (op : Combinator) (rule : RewriteRule) (detail : String)
    (id : Nat) (policy : RewritePolicy) : Option (PlanDag × RewriteStep) := do
  if !policy.allowsAssociative then none
  else
    let node ← dag.node id
    let children ← op.childrenOf node
    let (flattened, changed) ← dag.flatten op children
    if !changed then none
    else
      let (dag, newId) := dag.pushNode (op.node flattened)
      some (dag.finishRewrite rule id newId detail)

def rewriteJoinAssoc (dag : PlanDag) (id : Nat) (policy : RewritePolicy) :
    Option (PlanDag × RewriteStep) :=
  dag.rewriteAssoc .join .joinAssoc "flattened nested join" id policy

def rewriteRaceAssoc (dag : PlanDag) (id : Nat) (policy : RewritePolicy) :
    Option (PlanDag × RewriteStep) :=
  dag.rewriteAssoc .race .raceAssoc "flattened nested race" id policy

def rewriteCommute (dag : PlanDag) (op : Combinator) (rule : RewriteRule) (detail : String)
    (id : Nat) (policy : RewritePolicy) : Option (PlanDag × RewriteStep) := do
  if !policy.allowsCommutative then none
  else
    let node ← dag.node id
    let children ← op.childrenOf node
    if children.length < 2 then none
    else
      let ordered := sortIds children
      if ordered = children then none
      else
        let (dag, newId) := dag.pushNode (op.node ordered)
        some (dag.finishRewrite rule id newId detail)

def rewriteJoinCommute (dag : PlanDag) (id : Nat) (policy : RewritePolicy) :
    Option (PlanDag × RewriteStep) :=
  dag.rewriteCommute .join .joinCommute "reordered join children into canonical order" id policy

def rewriteRaceCommute (dag : PlanDag) (id : Nat) (policy : RewritePolicy) :
    Option (PlanDag × RewriteStep) :=
  dag.rewriteCommute .race .raceCommute "reordered race children into canonical order" id policy

/-- The child and the duration of a timeout. -/
def timeoutAt (dag : PlanDag) (id : Nat) : Option (Nat × Nat) :=
  match dag.node id with
  | some (.timeout child duration) => some (child, duration)
  | _ => none

def rewriteTimeoutMin (dag : PlanDag) (id : Nat) (policy : RewritePolicy) :
    Option (PlanDag × RewriteStep) := do
  if !policy.allowsTimeoutSimplification then none
  else
    let (child, duration) ← dag.timeoutAt id
    let (innerChild, innerDuration) ← dag.timeoutAt child
    let minDuration := if duration ≤ innerDuration then duration else innerDuration
    let (dag, newId) := dag.pushNode (.timeout innerChild minDuration)
    some (dag.finishRewrite .timeoutMin id newId "collapsed nested timeouts")

/-- The children of the joins a race is over. -/
def joinChildren (dag : PlanDag) (policy : RewritePolicy) (children : List Nat) :
    Option (List (List Nat)) :=
  children.mapM fun child =>
    match dag.node child with
    | some (.join joinNodes) =>
      if policy.requiresBinaryJoins && joinNodes.length != 2 then none else some joinNodes
    | _ => none

end PlanDag

/-- The ids in every one of the lists, once each. -/
def intersection : List (List Nat) → List Nat
  | [] => []
  | first :: rest => first.dedup.filter fun id => rest.all (·.contains id)

namespace PlanDag

/-- The shared child has to be a leaf, unless the policy allows others. -/
def sharedAllowed (dag : PlanDag) (policy : RewritePolicy) (shared : Nat) : Bool :=
  policy.allowsSharedNonLeaf ||
    match dag.node shared with
    | some (.leaf _) => true
    | _ => false

/-- What is left of one join without the shared child becomes a branch of the new race. -/
def pushBranch (policy : RewritePolicy) (shared : Nat) (state : PlanDag × List Nat)
    (joinNodes : List Nat) : Option (PlanDag × List Nat) :=
  let (dag, raceBranches) := state
  if shared ∉ joinNodes then none
  else
    let remaining := joinNodes.erase shared
    if remaining.isEmpty then none
    else if policy.requiresBinaryJoins && remaining.length != 1 then none
    else
      match remaining with
      | [branch] => some (dag, raceBranches ++ [branch])
      | _ =>
        let (dag, joinId) := dag.pushNode (.join remaining)
        some (dag, raceBranches ++ [joinId])

/-- The race over the branches; a single branch stands for itself. -/
def pushRace (dag : PlanDag) (raceBranches : List Nat) : PlanDag × Nat :=
  match raceBranches with
  | [branch] => (dag, branch)
  | _ => dag.pushNode (.race raceBranches)

def rewriteDedupRaceJoin (dag : PlanDag) (id : Nat) (policy : RewritePolicy) :
    Option (PlanDag × RewriteStep) := do
  let node ← dag.node id
  let children ← Combinator.race.childrenOf node
  if children.length < 2 then none
  else if policy.requiresBinaryJoins && children.length != 2 then none
  else
    let joins ← dag.joinChildren policy children
    if policy.requiresBinaryJoins && !joins.all (fun joinNodes => joinNodes.Nodup) then none
    else
      match intersection joins with
      | [shared] =>
        if !dag.sharedAllowed policy shared then none
        else
          let (dag, raceBranches) ← joins.foldlM (pushBranch policy shared) (dag, [])
          let (dag, raceId) := dag.pushRace raceBranches
          let (dag, newJoinId) := dag.pushNode (.join [shared, raceId])
          some (dag.finishRewrite .dedupRaceJoin id newJoinId
            ("deduped shared child " ++ toString shared ++ " across " ++
              toString joins.length ++ " joins"))
      | _ => none

def applyRuleUnchecked (dag : PlanDag) (id : Nat) (policy : RewritePolicy) :
    RewriteRule → Option (PlanDag × RewriteStep)
  | .joinAssoc => dag.rewriteJoinAssoc id policy
  | .raceAssoc => dag.rewriteRaceAssoc id policy
  | .joinCommute => dag.rewriteJoinCommute id policy
  | .raceCommute => dag.rewriteRaceCommute id policy
  | .timeoutMin => dag.rewriteTimeoutMin id policy
  | .dedupRaceJoin => dag.rewriteDedupRaceJoin id policy

end PlanDag

/-- A side condition with the text of its error. -/
def require (condition : Bool) (message : String) : Except String Unit :=
  if condition then .ok () else .error message

/-- A check that needs no fuel, among those that do. -/
def liftCheck {α : Type} (check : Except String α) : ExceptT String Option α :=
  ExceptT.mk (some check)

def sameChildrenUnordered (a b : List Nat) : Bool :=
  a.length == b.length && sortIds a == sortIds b

def isSortedChildren (children : List Nat) : Bool :=
  (children.zip children.tail).all fun pair => pair.1 ≤ pair.2

namespace PlanDag

def childrenAt (dag : PlanDag) (op : Combinator) (missing shape : String) (id : Nat) :
    Except String (List Nat) :=
  match dag.node id with
  | none => .error missing
  | some node =>
    match op.childrenOf node with
    | some children => .ok children
    | none => .error shape

def timeoutNode (dag : PlanDag) (missing shape : String) (id : Nat) : Except String (Nat × Nat) :=
  match dag.node id with
  | none => .error missing
  | some (.timeout child duration) => .ok (child, duration)
  | some _ => .error shape

def branchSignature (dag : PlanDag) (id : Nat) : Except String (List Nat) :=
  match dag.node id with
  | some (.join children) => .ok (sortIds children)
  | some _ => .ok [id]
  | none => .error "missing branch node"

end PlanDag

def sortSignatures (signatures : List (List Nat)) : List (List Nat) :=
  signatures.insertionSort (· ≤ ·)

def checkCommute (fuel : Nat) (op : Combinator) (policy : RewritePolicy)
    (checker : SideConditionChecker) (dag : PlanDag) (before after : Nat) :
    ExceptT String Option Unit := do
  liftCheck (require policy.allowsCommutative ("policy disallows " ++ op.word ++ " commutation"))
  let children ← liftCheck
    (dag.childrenAt op ("missing before " ++ op.word) ("before node is not " ++ op.name) before)
  let independent ← ExceptT.lift (checker.childrenPairwiseIndependent fuel children)
  liftCheck (require independent (op.word ++ " children not pairwise independent"))
  let afterChildren ← liftCheck
    (dag.childrenAt op ("missing after " ++ op.word) ("after node is not " ++ op.name) after)
  liftCheck (require (sameChildrenUnordered children afterChildren)
    (op.word ++ " children mismatch after commutation"))
  liftCheck (require (isSortedChildren afterChildren)
    (op.word ++ " children not in canonical order"))

def checkTimeoutMin (policy : RewritePolicy) (dag : PlanDag) (before after : Nat) :
    Except String Unit := do
  require policy.allowsTimeoutSimplification "policy disallows timeout simplification"
  let (child, duration) ←
    dag.timeoutNode "missing before timeout" "before node is not Timeout" before
  let (innerChild, innerDuration) ←
    dag.timeoutNode "missing inner timeout" "before timeout child is not Timeout" child
  let (afterChild, afterDuration) ←
    dag.timeoutNode "missing after timeout" "after node is not Timeout" after
  let minDuration := if duration ≤ innerDuration then duration else innerDuration
  require (afterChild == innerChild) "timeout min child mismatch"
  require (afterDuration == minDuration) "timeout min duration mismatch"

/-- The joins below the race, as the side conditions read them. -/
def checkJoinChildren (policy : RewritePolicy) (dag : PlanDag) (children : List Nat) :
    Except String (List (List Nat)) :=
  children.mapM fun child => do
    let joinNodes ← dag.childrenAt .join "missing join child" "race child is not Join" child
    require (!(policy.requiresBinaryJoins && joinNodes.length != 2)) "policy requires binary joins"
    return joinNodes

/-- The child of the new join beside the shared one. -/
def raceCandidate (shared : Nat) : List Nat → Except String Nat
  | [a, b] =>
    if a = shared then .ok b
    else if b = shared then .ok a
    else .error "after join missing shared child"
  | _ => .error "after join must have exactly two children"

def actualBranches (dag : PlanDag) (candidate : Nat) : Except String (List Nat) :=
  match dag.node candidate with
  | some (.race children) => .ok children
  | some _ => .ok [candidate]
  | none => .error "missing race candidate"

def expectedSignature (policy : RewritePolicy) (shared : Nat) (nodes : List Nat) :
    Except String (List Nat) := do
  let remaining := nodes.filter (· ≠ shared)
  require (!remaining.isEmpty) "dedup rewrite has empty branch"
  require (!(policy.requiresBinaryJoins && remaining.length != 1)) "policy requires binary joins"
  return if remaining.length = 1 then remaining else sortIds remaining

/-- The new join holds the shared child and a race over the rests of the joins. -/
def checkDedupBranches (policy : RewritePolicy) (dag : PlanDag) (joins : List (List Nat))
    (shared after : Nat) : Except String Unit := do
  require (dag.sharedAllowed policy shared) "shared child must be Leaf in conservative policy"
  let afterChildren ← dag.childrenAt .join "missing after join" "after node is not Join" after
  let candidate ← raceCandidate shared afterChildren
  let branches ← actualBranches dag candidate
  let expectedSignatures ← joins.mapM (expectedSignature policy shared)
  let actualSignatures ← branches.mapM dag.branchSignature
  require (sortSignatures expectedSignatures == sortSignatures actualSignatures)
    "dedup race-join branches mismatch"

/-- Exactly one child is shared by all the joins. -/
def checkDedupShared (policy : RewritePolicy) (dag : PlanDag) (joins : List (List Nat))
    (after : Nat) : Except String Unit :=
  match intersection joins with
  | [shared] => checkDedupBranches policy dag joins shared after
  | _ => .error "dedup requires exactly one shared child"

def checkDedupRaceJoin (policy : RewritePolicy) (dag : PlanDag) (before after : Nat) :
    Except String Unit := do
  let children ← dag.childrenAt .race "missing before race" "before node is not Race" before
  require (2 ≤ children.length) "dedup requires race with at least 2 children"
  require (!(policy.requiresBinaryJoins && children.length != 2)) "policy requires binary joins"
  let joins ← checkJoinChildren policy dag children
  checkDedupShared policy dag joins after

/-- The conditions on obligations, cancellation and budgets that every rule has. -/
def checkCommon (rule : RewriteRule) (checker : SideConditionChecker) (before after : Nat) :
    Except String Unit := do
  require (checker.obligationsSafe before) "obligations not safe before rewrite"
  require (checker.obligationsSafe after) "obligations not safe after rewrite"
  require (checker.cancelSafe before) "cancel safety not satisfied before rewrite"
  require (checker.cancelSafe after) "cancel safety not satisfied after rewrite"
  require (checker.rewritePreservesBudget before after) "budget monotonicity violated"
  require (checker.rewriteNoNewObligationLeaks before after)
    "rewrite introduces new obligation leak candidates"
  require (!(rule ∈ [RewriteRule.raceAssoc, .raceCommute, .dedupRaceJoin]) ||
      checker.rewritePreservesLoserDrain before after)
    "rewrite violates loser-drain preservation"

/-- Rules that build joins keep the finalize order of the obligations. -/
def checkFinalizeOrder (fuel : Nat) (rule : RewriteRule) (checker : SideConditionChecker)
    (before after : Nat) : ExceptT String Option Unit := do
  if rule ∈ [RewriteRule.joinAssoc, .joinCommute, .dedupRaceJoin] then
    let kept ← ExceptT.lift (checker.rewritePreservesFinalizeOrder fuel before after)
    liftCheck (require kept "rewrite violates finalize ordering preservation")

def checkRule (fuel : Nat) (rule : RewriteRule) (policy : RewritePolicy)
    (checker : SideConditionChecker) (dag : PlanDag) (before after : Nat) :
    ExceptT String Option Unit :=
  match rule with
  | .joinAssoc => liftCheck (require policy.allowsAssociative "policy disallows associativity")
  | .raceAssoc => liftCheck (require policy.allowsAssociative "policy disallows associativity")
  | .joinCommute => checkCommute fuel .join policy checker dag before after
  | .raceCommute => checkCommute fuel .race policy checker dag before after
  | .timeoutMin => liftCheck (checkTimeoutMin policy dag before after)
  | .dedupRaceJoin => liftCheck (checkDedupRaceJoin policy dag before after)

def checkSideConditions (fuel : Nat) (rule : RewriteRule) (policy : RewritePolicy)
    (checker : SideConditionChecker) (dag : PlanDag) (before after : Nat) :
    ExceptT String Option Unit := do
  liftCheck (checkCommon rule checker before after)
  checkFinalizeOrder fuel rule checker before after
  checkRule fuel rule policy checker dag before after

namespace PlanDag

/-- The rule on a scratch copy first; on the dag itself once the side conditions hold there. -/
def applyRuleChecked (fuel : Nat) (dag : PlanDag) (id : Nat) (policy : RewritePolicy)
    (rule : RewriteRule) : Option (Option (PlanDag × RewriteStep)) :=
  if !policy.permits rule then some none
  else
    match dag.applyRuleUnchecked id policy rule with
    | none => some none
    | some (scratch, step) => do
      let checker ← SideConditionChecker.new fuel scratch
      let checked ←
        (checkSideConditions fuel rule policy checker scratch step.before step.after).run
      match checked with
      | .error _ => some none
      | .ok _ => some (dag.applyRuleUnchecked id policy rule)

/-- The first rule that applies at a node; the others are not tried on what it replaced. -/
def applyRules (fuel : Nat) (dag : PlanDag) (id : Nat) (policy : RewritePolicy) :
    List RewriteRule → Option (Option (PlanDag × RewriteStep))
  | [] => some none
  | rule :: rest => do
    match ← dag.applyRuleChecked fuel id policy rule with
    | some result => some (some result)
    | none => applyRules fuel dag id policy rest

/-- One turn of the pass, at the node with index `idx`. -/
def rewriteAt (fuel : Nat) (policy : RewritePolicy) (rules : List RewriteRule)
    (state : PlanDag × List RewriteStep) (idx : Nat) : Option (PlanDag × List RewriteStep) := do
  let (dag, steps) := state
  match ← dag.applyRules fuel idx policy rules with
  | some (dag, step) => some (dag, steps ++ [step])
  | none => some (dag, steps)

def applyRewrites (fuel : Nat) (dag : PlanDag) (policy : RewritePolicy)
    (rules : List RewriteRule) : Option (PlanDag × List RewriteStep) :=
  (List.range dag.nodes.length).foldlM (rewriteAt fuel policy rules) (dag, [])

end PlanDag

end Asupersync
