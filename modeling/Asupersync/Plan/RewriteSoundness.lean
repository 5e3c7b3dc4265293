import Asupersync.Plan.Meaning
import Asupersync.Plan.SideConditions

/-!
# The rewrite pass keeps plans valid and their meaning

A rule that is tried and passes its side conditions has put a node that means the same
in the place of the rewritten one, so every pass that returns leaves a valid dag with
the meaning it had.

What can go wrong is that the pass does not return.  The side conditions analyse every
node of the trial copy, and the analysis has no guard against cycles; validation, which
has one, only looks at what the root reaches.  So the pass returns exactly when no trial
copy it makes has a cycle (`rewriting_preserves_meaning`), as is always so for a dag
without missing children and without cycles (`Grounded.passAcyclic`).
-/

namespace Asupersync

open Lib.GraphFold Lib.Fuel List Option SideConditionChecker PlanNode Relation

namespace PlanDag

variable {dag dag' : PlanDag} {id fuel : Nat} {policy : RewritePolicy} {rule : RewriteRule}
  {rules : List RewriteRule} {result : Option (PlanDag × RewriteStep)}

/-- If the rule is tried at the node and matches, the trial copy has no cycle. -/
def AttemptAcyclic (dag : PlanDag) (id : Nat) (policy : RewritePolicy) (rule : RewriteRule) : Prop :=
  policy.permits rule = true → ∀ scratch step,
    dag.applyRuleUnchecked id policy rule = some (scratch, step) → scratch.Acyclic

/-- The trial copies of the rules that are tried at one node have no cycle. -/
def RulesAcyclic (dag : PlanDag) (id : Nat) (policy : RewritePolicy) : List RewriteRule → Prop
  | [] => True
  | rule :: rest =>
    AttemptAcyclic dag id policy rule ∧
      (Settles (fun fuel => dag.applyRuleChecked fuel id policy rule) none →
        RulesAcyclic dag id policy rest)

/-- No trial copy made by the pass over the nodes `ids` has a cycle. -/
def PassAcyclic (policy : RewritePolicy) (rules : List RewriteRule) : List Nat → PlanDag → Prop
  | [], _ => True
  | id :: ids, dag =>
    RulesAcyclic dag id policy rules ∧
      ∀ result, Settles (fun fuel => dag.applyRules fuel id policy rules) result →
        PassAcyclic policy rules ids (result.elim dag (·.1))

section Checked

theorem applyRuleChecked_of_match (hpermits : policy.permits rule = true)
    {scratch : PlanDag} {step : RewriteStep}
    (hmatch : dag.applyRuleUnchecked id policy rule = some (scratch, step)) (fuel : Nat) :
    dag.applyRuleChecked fuel id policy rule = (new fuel scratch >>= fun checker =>
        (checkSideConditions fuel rule policy checker scratch step.before step.after).run >>=
          fun checked =>
            match checked with
            | .error _ => some none
            | .ok _ => some (some (scratch, step))) := by
  simp only [applyRuleChecked, hpermits, hmatch]
  rfl

theorem applyRuleChecked_of_not_match
    (h : policy.permits rule = true → dag.applyRuleUnchecked id policy rule = none) (fuel : Nat) :
    dag.applyRuleChecked fuel id policy rule = some none := by
  rw [applyRuleChecked]
  cases hpermits : policy.permits rule with
  | false => rfl
  | true =>
    rw [h hpermits]
    rfl

theorem exists_match
    (h : ¬ (policy.permits rule = true → dag.applyRuleUnchecked id policy rule = none)) :
    policy.permits rule = true ∧
      ∃ scratch step, dag.applyRuleUnchecked id policy rule = some (scratch, step) := by
  obtain ⟨hpermits, hsome⟩ := Classical.not_imp.mp h
  obtain ⟨⟨scratch, step⟩, hmatch⟩ := ne_none_iff_exists'.mp hsome
  exact ⟨hpermits, scratch, step, hmatch⟩

/-- A rule that is tried to the end has met no cycle. -/
theorem attemptAcyclic_of_checked (h : dag.applyRuleChecked fuel id policy rule = some result) :
    AttemptAcyclic dag id policy rule := by
  intro hpermits scratch step hmatch
  rw [applyRuleChecked_of_match hpermits hmatch] at h
  obtain ⟨checker, hchecker, -⟩ := bind_eq_some_iff.mp h
  obtain ⟨analysis, hanalysis, -⟩ := bind_eq_some_iff.mp hchecker
  exact PlanAnalyzer.acyclic_of_analyze hanalysis

theorem new_returns (h : dag.Acyclic) : Returns (fun fuel => new fuel dag) :=
  Returns.bind (PlanAnalyzer.analyze_returns h) fun _ => returns_some _

theorem dag_of_new {checker : SideConditionChecker}
    (h : new fuel dag = some checker) : checker.dag = dag := by
  obtain ⟨analysis, -, hchecker⟩ := bind_eq_some_iff.mp h
  cases hchecker
  rfl

theorem applyRuleChecked_returns (h : AttemptAcyclic dag id policy rule) :
    Returns (fun fuel => dag.applyRuleChecked fuel id policy rule) := by
  by_cases hnone : policy.permits rule = true → dag.applyRuleUnchecked id policy rule = none
  · simp only [applyRuleChecked_of_not_match hnone]
    exact returns_some none
  · obtain ⟨hpermits, scratch, step, hmatch⟩ := exists_match hnone
    have hacyclic := h hpermits scratch step hmatch
    obtain ⟨checker, hchecker⟩ := new_returns hacyclic
    have hdag : checker.dag = scratch := by
      obtain ⟨bound, hnew⟩ := hchecker
      exact dag_of_new (hnew bound (Nat.le_refl bound))
    obtain ⟨checked, hchecked⟩ := checkSideConditions_returns checker
      (hdag ▸ hacyclic) rule policy scratch step.before step.after
    simp only [applyRuleChecked_of_match hpermits hmatch]
    cases checked with
    | error e => exact ⟨none, hchecker.bind (hchecked.bind (settles_some _))⟩
    | ok _ => exact ⟨some (scratch, step), hchecker.bind (hchecked.bind (settles_some _))⟩

/-- A rule that is accepted has done what it does on the trial copy. -/
theorem unchecked_of_checked {result : PlanDag × RewriteStep}
    (h : dag.applyRuleChecked fuel id policy rule = some (some result)) :
    policy.permits rule = true ∧ dag.applyRuleUnchecked id policy rule = some result := by
  by_cases hnone : policy.permits rule = true → dag.applyRuleUnchecked id policy rule = none
  · rw [applyRuleChecked_of_not_match hnone] at h
    cases h
  · obtain ⟨hpermits, scratch, step, hmatch⟩ := exists_match hnone
    rw [applyRuleChecked_of_match hpermits hmatch] at h
    obtain ⟨checker, -, hrest⟩ := bind_eq_some_iff.mp h
    obtain ⟨checked, -, hresult⟩ := bind_eq_some_iff.mp hrest
    cases checked with
    | error e => cases hresult
    | ok _ =>
      cases hresult
      exact ⟨hpermits, hmatch⟩

end Checked

section Rules

/-- What is applied at a node is one of the rules. -/
theorem exists_rule_of_applyRules {result : PlanDag × RewriteStep}
    (h : dag.applyRules fuel id policy rules = some (some result)) :
    ∃ rule ∈ rules, dag.applyRuleChecked fuel id policy rule = some (some result) := by
  induction rules with
  | nil => cases h
  | cons rule rest ih =>
    obtain ⟨outcome, houtcome, hrest⟩ := bind_eq_some_iff.mp h
    cases outcome with
    | some result' =>
      cases hrest
      exact ⟨rule, mem_cons_self, houtcome⟩
    | none =>
      obtain ⟨rule', hmem, hrule'⟩ := ih hrest
      exact ⟨rule', mem_cons_of_mem rule hmem, hrule'⟩

theorem applyRules_returns (h : RulesAcyclic dag id policy rules) :
    Returns (fun fuel => dag.applyRules fuel id policy rules) := by
  induction rules with
  | nil => exact returns_some none
  | cons rule rest ih =>
    obtain ⟨outcome, houtcome⟩ := applyRuleChecked_returns h.1
    cases outcome with
    | some result => exact ⟨some result, houtcome.bind (settles_some _)⟩
    | none =>
      obtain ⟨value, hvalue⟩ := ih (h.2 houtcome)
      exact ⟨value, houtcome.bind hvalue⟩

theorem rulesAcyclic_of_defined (h : Defined (fun fuel => dag.applyRules fuel id policy rules)) :
    RulesAcyclic dag id policy rules := by
  induction rules with
  | nil => exact trivial
  | cons rule rest ih =>
    obtain ⟨fuel, outcome, houtcome⟩ := h.of_bind.exists_some
    exact ⟨attemptAcyclic_of_checked houtcome, fun hnone => ih (h.continue hnone)⟩

end Rules

section Pass

variable {ids : List Nat} {steps : List RewriteStep} {final : PlanDag × List RewriteStep}

/-- The dag and the steps after a turn with the given outcome. -/
def afterTurn (dag : PlanDag) (steps : List RewriteStep)
    (result : Option (PlanDag × RewriteStep)) : PlanDag × List RewriteStep :=
  (result.elim dag (·.1), result.elim steps fun r => steps ++ [r.2])

theorem pass_cons (fuel : Nat) (policy : RewritePolicy) (rules : List RewriteRule)
    (dag : PlanDag) (steps : List RewriteStep) (id : Nat) (rest : List Nat) :
    (id :: rest).foldlM (rewriteAt fuel policy rules) (dag, steps) =
      (dag.applyRules fuel id policy rules >>= fun result =>
        rest.foldlM (rewriteAt fuel policy rules) (afterTurn dag steps result)) := by
  rw [foldlM_cons, rewriteAt]
  simp only [bind_eq_bind, bind_assoc]
  refine bind_congr fun result _ => ?_
  cases result <;> rfl

theorem pass_skip {rest : List Nat} (h : dag.applyRules fuel id policy rules = some none) :
    (id :: rest).foldlM (rewriteAt fuel policy rules) (dag, steps) =
      rest.foldlM (rewriteAt fuel policy rules) (dag, steps) := by
  rw [pass_cons, h]
  rfl

/-- Every pass that returns leaves a valid dag with the meaning it had. -/
theorem pass_sound (h : ids.foldlM (rewriteAt fuel policy rules) (dag, steps) = some final)
    (hvalid : dag.validate = some (.ok ())) :
    final.1.validate = some (.ok ()) ∧ final.1.outcomeSets = dag.outcomeSets := by
  induction ids generalizing dag steps with
  | nil =>
    cases h
    exact ⟨hvalid, rfl⟩
  | cons id rest ih =>
    rw [pass_cons, bind_eq_bind, bind_eq_some_iff] at h
    obtain ⟨result, hturn, hrest⟩ := h
    cases result with
    | none => exact ih hrest hvalid
    | some result =>
      obtain ⟨rule, -, hrule⟩ := exists_rule_of_applyRules hturn
      obtain ⟨fresh, detail, hmatches, rfl⟩ :=
        Matches.of_applyRuleUnchecked (unchecked_of_checked hrule).2
      obtain ⟨hvalid', hmeaning⟩ := hmatches.install_sound hvalid
      obtain ⟨hfinal, hmeaning'⟩ := ih hrest hvalid'
      exact ⟨hfinal, hmeaning'.trans hmeaning⟩

theorem pass_returns (h : PassAcyclic policy rules ids dag) (steps : List RewriteStep) :
    Returns (fun fuel => ids.foldlM (rewriteAt fuel policy rules) (dag, steps)) := by
  induction ids generalizing dag steps with
  | nil => exact returns_some _
  | cons id rest ih =>
    obtain ⟨result, hresult⟩ := applyRules_returns h.1
    obtain ⟨value, hvalue⟩ := ih (h.2 result hresult) (afterTurn dag steps result).2
    have hturn : Settles (fun fuel => dag.applyRules fuel id policy rules >>= fun result =>
        rest.foldlM (rewriteAt fuel policy rules) (afterTurn dag steps result)) value :=
      hresult.bind hvalue
    exact ⟨value, hturn.congr fun fuel => pass_cons fuel policy rules dag steps id rest⟩

theorem passAcyclic_of_defined
    (h : Defined (fun fuel => ids.foldlM (rewriteAt fuel policy rules) (dag, steps))) :
    PassAcyclic policy rules ids dag := by
  induction ids generalizing dag steps with
  | nil => exact trivial
  | cons id rest ih =>
    simp only [pass_cons] at h
    exact ⟨rulesAcyclic_of_defined h.of_bind, fun result hresult => ih (h.continue hresult)⟩

end Pass

section Grounded

variable {fresh : List PlanNode}

/-- No node has a missing child, and there is no cycle. -/
structure Grounded (dag : PlanDag) : Prop where
  closed : ∀ id node, dag.node id = some node → ∀ c ∈ node.children, c < dag.nodes.length
  acyclic : dag.Acyclic

theorem Grounded.lt_of_below (h : dag.Grounded) {c : Nat} (hbelow : Below dag id c) :
    c < dag.nodes.length := by
  obtain ⟨parent, -, hchild⟩ := TransGen.tail'_iff.mp hbelow
  obtain ⟨node, hnode, hc⟩ := exists_node_of_child hchild
  exact h.closed parent node hnode c hc

theorem acc_of_missing (h : dag.node id = none) : Acc (Child dag.graph) id :=
  (PlanAnalyzer.analysisOf_missing h).1

section

variable (hd : dag.Grounded)

include hd

/-- Adding nodes over nodes below the rewritten one closes no cycle. -/
theorem Grounded.acc_extend (h : Matches dag id policy rule fresh) (x : Nat) :
    Acc (Child (dag.extend fresh).graph) x := by
  have hold : ∀ x, x < dag.nodes.length → Acc (Child (dag.extend fresh).graph) x := by
    intro x hx
    refine acc_iff_folds_unit.mpr
      ((acc_iff_folds_unit.mp (hd.acyclic x)).frame (S := (· < dag.nodes.length)) ?_ ?_ hx)
    · intro i _ c hc
      exact hd.lt_of_below (TransGen.single hc)
    · intro i hi
      exact graph_extend fresh (getElem?_eq_getElem hi)
  rcases Nat.lt_or_ge x dag.nodes.length with hlt | hge
  · exact hold x hlt
  · obtain ⟨j, rfl⟩ := Nat.exists_eq_add_of_le hge
    rcases Nat.lt_or_ge j fresh.length with hj | hj
    · obtain ⟨node, hnode⟩ := h.exists_node
      exact h.acc_fresh (hold id (lt_length_of_node hnode)) j hj
    · apply acc_of_missing
      rw [node_extend_add]
      exact getElem?_eq_none_iff.mpr hj

theorem Grounded.install (h : Matches dag id policy rule fresh) :
    (dag.install id fresh).Grounded := by
  have hacc := hd.acc_extend h
  have hredirect : ∀ c, c < dag.nodes.length + fresh.length →
      redirectId id (dag.newId fresh) c < (dag.install id fresh).nodes.length := by
    intro c hc
    have hnew := h.newId_lt
    rw [length_install, redirectId, newId]
    split <;> omega
  refine ⟨?_, ?_⟩
  · intro i node hnode c hc
    rw [PlanDag.install, node_redirect, map_eq_some_iff] at hnode
    obtain ⟨original, horiginal, rfl⟩ := hnode
    rw [children_redirect, List.mem_map] at hc
    obtain ⟨d, hd', rfl⟩ := hc
    apply hredirect
    rcases Nat.lt_or_ge i dag.nodes.length with hlt | hge
    · have hi : dag.node i = some original := by
        rw [← horiginal, PlanDag.node, PlanDag.node, PlanDag.extend, getElem?_append_left hlt]
      exact Nat.lt_add_right _ (hd.closed i original hi d hd')
    · obtain ⟨j, rfl⟩ := Nat.exists_eq_add_of_le hge
      rw [node_extend_add] at horiginal
      have hj := (List.getElem?_eq_some_iff.mp horiginal).1
      rcases h.freshChildren j horiginal hd' with hbelow | ⟨-, hlt⟩
      · exact Nat.lt_add_right _ (hd.lt_of_below hbelow)
      · omega
  · -- the children of a node are redirected nodes, and those keep starting no infinite path
    intro i
    refine Acc.intro i fun c hc => ?_
    rw [Child, PlanDag.install, graph_redirect, List.mem_map] at hc
    obtain ⟨d, -, rfl⟩ := hc
    refine acc_iff_folds_unit.mpr (folds_redirect (h.not_reaches (hacc id)) ?_
      (acc_iff_folds_unit.mp (hacc d)))
    intro _ _
    exact acc_iff_folds_unit.mp (hacc (dag.newId fresh))

theorem Grounded.unchecked {result : PlanDag × RewriteStep}
    (h : dag.applyRuleUnchecked id policy rule = some result) : result.1.Grounded := by
  obtain ⟨fresh, detail, hmatches, rfl⟩ := Matches.of_applyRuleUnchecked h
  exact hd.install hmatches

theorem Grounded.rulesAcyclic (id : Nat) (policy : RewritePolicy)
    (rules : List RewriteRule) : RulesAcyclic dag id policy rules := by
  induction rules with
  | nil => exact trivial
  | cons rule rest ih =>
    exact ⟨fun _ scratch step hmatch => (hd.unchecked hmatch).acyclic, fun _ => ih⟩

/-- The dag after a turn of the pass is grounded again. -/
theorem Grounded.applyRules (h : dag.applyRules fuel id policy rules = some result) :
    (result.elim dag (·.1)).Grounded := by
  cases result with
  | none => exact hd
  | some result =>
    obtain ⟨rule, -, hrule⟩ := exists_rule_of_applyRules h
    exact hd.unchecked (unchecked_of_checked hrule).2

/-- On a grounded dag no trial copy has a cycle. -/
theorem Grounded.passAcyclic (policy : RewritePolicy)
    (rules : List RewriteRule) (ids : List Nat) : PassAcyclic policy rules ids dag := by
  induction ids generalizing dag with
  | nil => exact trivial
  | cons id rest ih =>
    refine ⟨hd.rulesAcyclic id policy rules, fun result hresult => ih ?_⟩
    obtain ⟨bound, hbound⟩ := hresult
    exact hd.applyRules (hbound bound (Nat.le_refl bound))

end

/-- Every node comes after its children. -/
def Ordered (dag : PlanDag) : Prop :=
  ∀ id node, dag.node id = some node → ∀ c ∈ node.children, c < id

theorem Ordered.grounded (h : dag.Ordered) : dag.Grounded := by
  refine ⟨fun id node hnode c hc => ?_, fun id => ?_⟩
  · exact Nat.lt_trans (h id node hnode c hc) (lt_length_of_node hnode)
  · induction id using Nat.strongRecOn with
    | ind id ih =>
      refine Acc.intro id fun c hc => ?_
      obtain ⟨node, hnode, hc⟩ := exists_node_of_child hc
      exact ih c (h id node hnode c hc)

theorem ordered_of_forall_lt (h : ∀ id < dag.nodes.length, ∀ c ∈ (dag.graph id).2, c < id) :
    dag.Ordered := by
  intro id node hnode c hc
  refine h id (lt_length_of_node hnode) c ?_
  rw [graph_of_node hnode]
  exact hc

end Grounded

section Cycles

variable {fresh : List PlanNode} {node : PlanNode} {c g : Nat}

/-- A path from the new node that does not leave from the rewritten one. -/
def Under (dag : PlanDag) (id : Nat) (fresh : List PlanNode) (c : Nat) : Prop :=
  TransGen (fun a b => a ≠ id ∧ Child (dag.extend fresh).graph b a) (dag.newId fresh) c

theorem fresh_ne (hid : id < dag.nodes.length) (j : Nat) : dag.nodes.length + j ≠ id :=
  Nat.ne_of_gt (Nat.lt_of_lt_of_le hid (Nat.le_add_right _ _))

theorem Under.single (hid : id < dag.nodes.length)
    (hnew : (dag.extend fresh).node (dag.newId fresh) = some node) (hc : c ∈ node.children) :
    Under dag id fresh c :=
  TransGen.single ⟨fresh_ne hid _, (child_iff hnew c).mpr hc⟩

theorem Under.tail {j : Nat} (hid : id < dag.nodes.length)
    (h : Under dag id fresh (dag.nodes.length + j)) (hj : fresh[j]? = some node)
    (hc : c ∈ node.children) : Under dag id fresh c :=
  TransGen.tail h
    ⟨fresh_ne hid j, (child_iff ((node_extend_add dag fresh j).trans hj) c).mpr hc⟩

/-- Every child of the rewritten node is under the new one, or all its children are. -/
theorem Matches.covers (h : Matches dag id policy rule fresh) (hnode : dag.node id = some node)
    (hc : c ∈ node.children) :
    Under dag id fresh c ∨
      ∀ inner, dag.node c = some inner → ∀ g ∈ inner.children, Under dag id fresh g := by
  have hid := lt_length_of_node hnode
  have hnew := node_extend_add dag fresh (fresh.length - 1)
  cases h with
  | assoc op children flattened hrule hidNode hflat hfresh =>
    cases hnode.symm.trans hidNode
    subst hfresh
    rw [Combinator.children_node] at hc
    have hunder : ∀ g ∈ dag.expandChild op c, Under dag id [op.node flattened] g := by
      intro g hg
      refine Under.single hid hnew ?_
      rw [Combinator.children_node, (flatten_spec hflat).1]
      exact mem_flatMap.mpr ⟨c, hc, hg⟩
    cases hinner : (dag.node c).bind op.childrenOf with
    | none =>
      refine .inl (hunder c ?_)
      rw [expandChild, hinner]
      exact mem_cons_self
    | some inner =>
      refine .inr fun inner' hinner' g hg => hunder g ?_
      rw [hinner', bind_some, Combinator.childrenOf_eq_some_iff] at hinner
      rw [expandChild, hinner', hinner, bind_some, Combinator.childrenOf_node]
      rwa [hinner, Combinator.children_node] at hg
  | commute op children hrule hidNode hfresh =>
    cases hnode.symm.trans hidNode
    subst hfresh
    refine .inl (Under.single hid hnew ?_)
    rw [Combinator.children_node] at hc ⊢
    exact (mem_insertionSort _).mpr hc
  | timeoutMin child inner duration innerDuration hrule hidNode hinner hfresh =>
    cases hnode.symm.trans hidNode
    subst hfresh
    obtain rfl := mem_singleton.mp hc
    refine .inr fun inner' hinner' g hg => Under.single hid hnew ?_
    cases hinner'.symm.trans hinner
    exact hg
  | dedup _ _ shared extra branches _ hidNode _ _ hjoins _ _ hbranches hfresh =>
      cases hnode.symm.trans hidNode
      have hlast : fresh[fresh.length - 1]? =
          some (.join [shared, dag.nodes.length + extra.length]) := by
        rw [hfresh]
        simp
      have hrace : fresh[extra.length]? = some (.race branches) := by
        rw [hfresh, getElem?_append_right le_rfl, Nat.sub_self]
        rfl
      rw [hlast] at hnew
      have hunderShared := Under.single hid hnew mem_cons_self
      have hunderRace := Under.single hid hnew (mem_cons_of_mem shared mem_cons_self)
      refine .inr fun inner hinner g hg => ?_
      obtain ⟨joinNodes, hjoinNodes, hchild⟩ :=
        exists_of_forall₂_left (joinChildren_spec hjoins) hc
      cases hinner.symm.trans hchild
      obtain ⟨branch, hbranch, -, hrest⟩ := exists_of_forall₂_left hbranches.branch hjoinNodes
      have hunderBranch : Under dag id _ branch := Under.tail hid hunderRace hrace hbranch
      by_cases hg' : g ∈ joinNodes.erase shared
      · rcases hrest with hsingle | ⟨j, hj, rfl⟩
        · rw [hsingle] at hg'
          rwa [mem_singleton.mp hg']
        · have hj' : fresh[j]? = some (.join (joinNodes.erase shared)) := by
            rw [hfresh, getElem?_append_left (List.getElem?_eq_some_iff.mp hj).1]
            exact hj
          exact Under.tail hid hunderBranch hj' hg'
      · by_cases hgs : g = shared
        · rwa [hgs]
        · exact absurd ((mem_erase_of_ne hgs).mpr hg) hg'

/-- The last step of a redirected path, whose earlier nodes are not redirected. -/
theorem Under.install (h : Under dag id fresh c) :
    TransGen (Child (dag.install id fresh).graph)
      (redirectId id (dag.newId fresh) c) (dag.newId fresh) := by
  have hedge : ∀ a b : Nat, Child (dag.extend fresh).graph b a →
      Child (dag.install id fresh).graph (redirectId id (dag.newId fresh) b) a := by
    intro a b hchild
    rw [Child, PlanDag.install, graph_redirect]
    exact mem_map_of_mem hchild
  induction h with
  | single hstep => exact TransGen.single (hedge _ _ hstep.2)
  | @tail a b _ hstep ih =>
    rw [redirectId_of_ne hstep.1] at ih
    exact TransGen.head (hedge a b hstep.2) ih

/-- Rewriting removes no cycle. -/
theorem Matches.acyclic_of_install (h : Matches dag id policy rule fresh)
    (hacyclic : (dag.install id fresh).Acyclic) : dag.Acyclic := by
  have hcarried : ∀ y, ∀ x, redirectId id (dag.newId fresh) x = y → Acc (Child dag.graph) x := by
    intro y
    have hacc := (hacyclic y).transGen
    induction hacc with
    | intro y _ ih =>
      rintro x rfl
      cases hnode : dag.node x with
      | none => exact acc_of_missing hnode
      | some node =>
        refine Acc.intro x fun c hc => ?_
        rw [child_iff hnode] at hc
        by_cases hx : x = id
        · subst hx
          rw [redirectId_self] at ih
          rcases h.covers hnode hc with hunder | hinner
          · exact ih _ hunder.install c rfl
          · cases hchild : dag.node c with
            | none => exact acc_of_missing hchild
            | some inner =>
              refine Acc.intro c fun g hg => ?_
              rw [child_iff hchild] at hg
              exact ih _ (hinner inner hchild g hg).install g rfl
        · refine ih _ (TransGen.single ?_) c rfl
          rw [redirectId_of_ne hx, Child, install, graph_redirect,
            graph_extend fresh hnode, graph_of_node hnode]
          exact mem_map_of_mem hc
  intro x
  exact hcarried _ x rfl

end Cycles

section Exact

/-- Some permitted rule of the list matches at the node. -/
def MatchesAt (dag : PlanDag) (policy : RewritePolicy) (rules : List RewriteRule) (id : Nat) :
    Prop :=
  ∃ rule ∈ rules, policy.permits rule = true ∧ (dag.applyRuleUnchecked id policy rule).isSome

theorem matchesAt_cons {rest : List RewriteRule} : MatchesAt dag policy (rule :: rest) id ↔
    (policy.permits rule = true ∧ (dag.applyRuleUnchecked id policy rule).isSome) ∨
      MatchesAt dag policy rest id :=
  exists_mem_cons_iff _ _ _

/-- Where a cycle is present, the rules tried at a node are harmless only if none matches. -/
theorem rulesAcyclic_iff_of_cycle (hcycle : ¬ dag.Acyclic) :
    RulesAcyclic dag id policy rules ↔ ¬ MatchesAt dag policy rules id := by
  induction rules with
  | nil =>
    refine ⟨fun _ => ?_, fun _ => trivial⟩
    rintro ⟨rule, hrule, -⟩
    exact absurd hrule not_mem_nil
  | cons rule rest ih =>
    by_cases hnone : policy.permits rule = true → dag.applyRuleUnchecked id policy rule = none
    swap
    · obtain ⟨hpermits, scratch, step, hresult⟩ := exists_match hnone
      constructor
      · rintro ⟨hattempt, -⟩
        have hscratch := hattempt hpermits scratch step hresult
        obtain ⟨fresh, detail, hmatches, heq⟩ := Matches.of_applyRuleUnchecked hresult
        cases heq
        exact absurd (hmatches.acyclic_of_install hscratch) hcycle
      · intro hnone
        exact absurd (matchesAt_cons.mpr (.inl ⟨hpermits, isSome_of_eq_some hresult⟩)) hnone
    have hattempt : AttemptAcyclic dag id policy rule := by
      intro hpermits scratch step hresult
      rw [hnone hpermits] at hresult
      cases hresult
    have hskipped : Settles (fun fuel => dag.applyRuleChecked fuel id policy rule) none :=
      ⟨0, fun fuel _ => applyRuleChecked_of_not_match hnone fuel⟩
    have hhead : ¬(policy.permits rule = true ∧ (dag.applyRuleUnchecked id policy rule).isSome) := by
      rintro ⟨hpermits, hsome⟩
      rw [hnone hpermits] at hsome
      cases hsome
    rw [matchesAt_cons, or_iff_right hhead, ← ih]
    exact ⟨fun hrules => hrules.2 hskipped, fun hrest => ⟨hattempt, fun _ => hrest⟩⟩

/-- Rules that do not match leave the dag as it is. -/
theorem applyRules_of_not_match (h : ¬ MatchesAt dag policy rules id) (fuel : Nat) :
    dag.applyRules fuel id policy rules = some none := by
  induction rules with
  | nil => rfl
  | cons rule rest ih =>
    rw [matchesAt_cons, not_or, not_and, not_isSome_iff_eq_none] at h
    rw [applyRules, applyRuleChecked_of_not_match h.1]
    exact ih h.2

/-- On a dag with a cycle the pass is harmless only if no permitted rule matches anywhere. -/
theorem passAcyclic_iff_of_cycle (hcycle : ¬ dag.Acyclic) (ids : List Nat) :
    PassAcyclic policy rules ids dag ↔ ∀ id ∈ ids, ¬ MatchesAt dag policy rules id := by
  induction ids with
  | nil => exact ⟨fun _ id hid => absurd hid not_mem_nil, fun _ => trivial⟩
  | cons id rest ih =>
    rw [forall_mem_cons, PassAcyclic, rulesAcyclic_iff_of_cycle hcycle]
    refine and_congr_right fun hnone => ?_
    have hsettles : Settles (fun fuel => dag.applyRules fuel id policy rules) none :=
      ⟨0, fun fuel _ => applyRules_of_not_match hnone fuel⟩
    rw [← ih]
    constructor
    · intro hrest
      exact hrest none hsettles
    · intro hrest result hresult
      rw [hresult.unique hsettles]
      exact hrest

/-- For a dag without missing children, the pass is harmless exactly when the dag has no
cycle or no permitted rule matches at any of its nodes. -/
theorem passAcyclic_iff_of_closed
    (hclosed : ∀ id node, dag.node id = some node → ∀ c ∈ node.children, c < dag.nodes.length)
    (policy : RewritePolicy) (rules : List RewriteRule) (ids : List Nat) :
    PassAcyclic policy rules ids dag ↔
      dag.Acyclic ∨ ∀ id ∈ ids, ¬ MatchesAt dag policy rules id := by
  by_cases hacyclic : dag.Acyclic
  · exact iff_of_true (Grounded.passAcyclic ⟨hclosed, hacyclic⟩ policy rules ids) (.inl hacyclic)
  · rw [passAcyclic_iff_of_cycle hacyclic]
    exact ⟨.inr, fun h => h.resolve_left hacyclic⟩

end Exact

/-- Rewriting a valid plan returns a valid plan with the same meaning exactly when no
trial copy of the pass has a cycle. -/
theorem rewriting_preserves_meaning (dag : PlanDag) (policy : RewritePolicy)
    (rules : List RewriteRule) (hvalid : dag.validate = some (.ok ())) :
    (∃ dag' steps,
        Settles (fun fuel => dag.applyRewrites fuel policy rules) (dag', steps) ∧
          dag'.validate = some (.ok ()) ∧ dag'.outcomeSets = dag.outcomeSets) ↔
      PassAcyclic policy rules (List.range dag.nodes.length) dag := by
  constructor
  · rintro ⟨dag', steps, hsettles, -⟩
    exact passAcyclic_of_defined hsettles.defined
  · intro hacyclic
    obtain ⟨⟨dag', steps⟩, hsettles⟩ := pass_returns hacyclic []
    obtain ⟨bound, hbound⟩ := hsettles
    obtain ⟨hvalid', hmeaning⟩ := pass_sound (hbound bound (Nat.le_refl bound)) hvalid
    exact ⟨dag', steps, ⟨bound, hbound⟩, hvalid', hmeaning⟩

/-- Three tasks in two nested joins. -/
def nestedJoins : PlanDag where
  nodes := [.leaf "a", .leaf "b", .leaf "c", .join [0, 1], .join [3, 2]]
  root := some 4

theorem rewriting_preserves_meaning_nestedJoins :
    nestedJoins.validate = some (.ok ()) ∧
      ∃ dag' steps,
        Settles (fun fuel => nestedJoins.applyRewrites fuel .conservative [.joinAssoc])
            (dag', steps) ∧
          dag'.validate = some (.ok ()) ∧ dag'.outcomeSets = nestedJoins.outcomeSets :=
  ⟨rfl, (rewriting_preserves_meaning nestedJoins .conservative [.joinAssoc] rfl).mpr
    ((ordered_of_forall_lt (by decide)).grounded.passAcyclic _ _ _)⟩

/-- The nested joins beside a timeout over itself, which the root does not reach. -/
def strayCycle : PlanDag where
  nodes := nestedJoins.nodes ++ [.timeout 5 1000]
  root := some 4

/-- Validation accepts the stray cycle, and the pass runs forever on it. -/
theorem rewriting_diverges_on_stray_cycle :
    strayCycle.validate = some (.ok ()) ∧
      Diverges (fun fuel => strayCycle.applyRewrites fuel .conservative [.joinAssoc]) := by
  refine ⟨rfl, fun fuel => ?_⟩
  have hstuck : strayCycle.applyRules fuel 4 .conservative [.joinAssoc] = none := by
    rw [Option.eq_none_iff_forall_ne_some]
    intro result h
    obtain ⟨outcome, houtcome, -⟩ := Option.bind_eq_some_iff.mp h
    have hacyclic := attemptAcyclic_of_checked houtcome rfl _ _ rfl
    exact not_reaches_of_child (hacyclic 5) (c := 5) mem_cons_self (Reaches.refl 5)
  have hskip : ∀ id < 4, strayCycle.applyRules fuel id .conservative [.joinAssoc] = some none := by
    intro id hid
    match id, hid with
    | 0, _ => rfl
    | 1, _ => rfl
    | 2, _ => rfl
    | 3, _ => rfl
  show (0 :: 1 :: 2 :: 3 :: 4 :: [5]).foldlM
    (rewriteAt fuel .conservative [.joinAssoc]) (strayCycle, []) = none
  rw [pass_skip (hskip 0 (by decide)), pass_skip (hskip 1 (by decide)),
    pass_skip (hskip 2 (by decide)), pass_skip (hskip 3 (by decide)), pass_cons, hstuck]
  rfl

end PlanDag

end Asupersync
