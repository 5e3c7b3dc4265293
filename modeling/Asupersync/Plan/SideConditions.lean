import Asupersync.Plan.AnalysisSpec
import Asupersync.Plan.RewriteSpec

/-!
# The side conditions of a rewrite

Two facts about `check_side_conditions`.  On a dag without a cycle it returns
(`checkSideConditions_returns`).  And it reads only what lies below the two nodes it
is asked about: checkers that agree on a closed set of nodes with both of them in it
give the same answer (`Agree.checkSideConditions`).
-/

namespace Asupersync

open Lib.GraphFold Lib.Fuel PlanDag List

section Loops

variable {α β σ : Type} {m : Type → Type} [Monad m]

variable {xs : List α}

theorem foldlM_congr_mem {f g : σ → α → m σ} (h : ∀ x ∈ xs, ∀ s, f s x = g s x) (s : σ) : xs.foldlM f s = xs.foldlM g s := by
  induction xs generalizing s with
  | nil => rfl
  | cons x rest ih =>
    rw [foldlM_cons, foldlM_cons, h x mem_cons_self s]
    refine bind_congr fun s' => ?_
    exact ih (fun y hy => h y (mem_cons_of_mem x hy)) s'

theorem allM_congr_mem {f g : α → m Bool} (h : ∀ x ∈ xs, f x = g x) : xs.allM f = xs.allM g := by
  induction xs with
  | nil => rfl
  | cons x rest ih =>
    rw [allM, allM, h x mem_cons_self, ih fun y hy => h y (mem_cons_of_mem x hy)]

theorem mapM_congr_mem [LawfulMonad m] {f g : α → m β} (h : ∀ x ∈ xs, f x = g x) :
    xs.mapM f = xs.mapM g := by
  induction xs with
  | nil => rfl
  | cons x rest ih =>
    rw [mapM_cons, mapM_cons, h x mem_cons_self, ih fun y hy => h y (mem_cons_of_mem x hy)]

end Loops

namespace SideConditionChecker

variable {checker checker' : SideConditionChecker} {S : Nat → Prop} {id before after : Nat}

section Returns

theorem collect_returns (h : Acc (Child checker.dag.graph) id) (order : List Nat) :
    Returns (fun fuel => checker.collectObligationFinalizeOrder fuel id order) := by
  induction h generalizing order with
  | intro id _ ih =>
    by_cases hjoin : ∃ children, checker.dag.node id = some (.join children)
    · obtain ⟨children, hnode⟩ := hjoin
      have hloop : Returns (fun fuel => children.foldlM
          (fun order child => checker.collectObligationFinalizeOrder fuel child order) order) :=
        Returns.foldlM (fun c hc order => ih c ((child_iff hnode c).mpr hc) order) order
      refine Returns.of_succ (fun fuel => ?_) hloop
      rw [collectObligationFinalizeOrder, hnode]
    · refine Returns.of_succ (fun fuel => ?_)
        (returns_some (if checker.bearsObligations id then order ++ [id] else order))
      rw [collectObligationFinalizeOrder]
      split
      · exact absurd ⟨_, ‹_›⟩ hjoin
      · rfl

theorem obligationFinalizeOrder_returns (h : checker.dag.Acyclic) (children : List Nat) :
    Returns (fun fuel => checker.obligationFinalizeOrder fuel children) :=
  Returns.foldlM (fun c _ order => collect_returns (h c) order) []

theorem rewritePreservesFinalizeOrder_returns (h : checker.dag.Acyclic) (before after : Nat) :
    Returns (fun fuel => checker.rewritePreservesFinalizeOrder fuel before after) := by
  simp only [rewritePreservesFinalizeOrder]
  split
  · refine Returns.bind (obligationFinalizeOrder_returns h _) fun beforeObl => ?_
    exact Returns.bind (obligationFinalizeOrder_returns h _) fun _ => returns_some _
  all_goals exact returns_some _

theorem reachableInner_returns (h : Acc (Child checker.dag.graph) id) (visited : List Nat) :
    Returns (fun fuel => checker.reachableInner fuel id visited) := by
  induction h generalizing visited with
  | intro id _ ih =>
    by_cases hvisited : id ∈ visited
    · refine Returns.of_succ (fun fuel => ?_) (returns_some visited)
      rw [reachableInner, if_pos hvisited]
    cases hnode : checker.dag.node id with
    | none =>
      refine Returns.of_succ (fun fuel => ?_) (returns_some (visited ++ [id]))
      rw [reachableInner, if_neg hvisited, hnode]
    | some node =>
      have hloop : Returns (fun fuel => node.children.foldlM
          (fun visited child => checker.reachableInner fuel child visited)
          (visited ++ [id])) :=
        Returns.foldlM (fun c hc visited => ih c ((child_iff hnode c).mpr hc) visited) _
      refine Returns.of_succ (fun fuel => ?_) hloop
      rw [reachableInner, if_neg hvisited, hnode]

theorem areIndependent_returns (h : checker.dag.Acyclic) (a b : Nat) :
    Returns (fun fuel => checker.areIndependent fuel a b) := by
  refine Returns.bind (reachableInner_returns (h a) []) fun reachableA => ?_
  exact Returns.bind (reachableInner_returns (h b) []) fun _ => returns_some _

theorem childrenPairwiseIndependent_returns (h : checker.dag.Acyclic) (children : List Nat) :
    Returns (fun fuel => checker.childrenPairwiseIndependent fuel children) := by
  induction children with
  | nil => exact returns_some true
  | cons a rest ih =>
    refine Returns.bind (Returns.allM fun b _ => areIndependent_returns h a b) fun independent => ?_
    cases independent with
    | true => exact ih
    | false => exact returns_some false

end Returns

/-- Two checkers see the same on a set of nodes closed under children. -/
structure Agree (S : Nat → Prop) (checker checker' : SideConditionChecker) : Prop where
  closed : ∀ i, S i → ∀ node, checker.dag.node i = some node → ∀ c ∈ node.children, S c
  node : ∀ i, S i → checker'.dag.node i = checker.dag.node i
  get : ∀ i, S i → checker'.get i = checker.get i

namespace Agree

variable (h : Agree S checker checker')

include h

section

variable (fuel : Nat)

theorem collectObligationFinalizeOrder_eq (hid : S id) (order : List Nat) :
    checker'.collectObligationFinalizeOrder fuel id order =
      checker.collectObligationFinalizeOrder fuel id order := by
  induction fuel generalizing id order with
  | zero => rfl
  | succ fuel ih =>
    rw [collectObligationFinalizeOrder, collectObligationFinalizeOrder, h.node id hid]
    split
    · rename_i children hnode
      exact foldlM_congr_mem (fun c hc order => ih (h.closed id hid _ hnode c hc) order) order
    · rw [bearsObligations, bearsObligations, h.get id hid]

variable {children : List Nat}

theorem obligationFinalizeOrder_eq (hchildren : ∀ c ∈ children, S c) :
    checker'.obligationFinalizeOrder fuel children =
      checker.obligationFinalizeOrder fuel children :=
  foldlM_congr_mem
    (fun c hc order => h.collectObligationFinalizeOrder_eq fuel (hchildren c hc) order) []

theorem rewritePreservesFinalizeOrder_eq (hbefore : S before) (hafter : S after) :
    checker'.rewritePreservesFinalizeOrder fuel before after =
      checker.rewritePreservesFinalizeOrder fuel before after := by
  rw [rewritePreservesFinalizeOrder,
    rewritePreservesFinalizeOrder, h.node before hbefore, h.node after hafter]
  split
  · rename_i beforeCh afterCh hbeforeNode hafterNode
    have hbeforeOrder : checker'.obligationFinalizeOrder fuel beforeCh =
        checker.obligationFinalizeOrder fuel beforeCh :=
      h.obligationFinalizeOrder_eq fuel (h.closed before hbefore _ hbeforeNode)
    have hafterOrder : checker'.obligationFinalizeOrder fuel afterCh =
        checker.obligationFinalizeOrder fuel afterCh :=
      h.obligationFinalizeOrder_eq fuel (h.closed after hafter _ hafterNode)
    rw [hbeforeOrder, hafterOrder]
  all_goals rfl

theorem reachableInner_eq (hid : S id) (visited : List Nat) :
    checker'.reachableInner fuel id visited = checker.reachableInner fuel id visited := by
  induction fuel generalizing id visited with
  | zero => rfl
  | succ fuel ih =>
    rw [reachableInner, reachableInner, h.node id hid]
    split
    · rfl
    · split
      · rfl
      · rename_i node hnode
        exact foldlM_congr_mem (fun c hc visited => ih (h.closed id hid _ hnode c hc) visited) _

theorem childrenPairwiseIndependent_eq (hchildren : ∀ c ∈ children, S c) :
    checker'.childrenPairwiseIndependent fuel children =
      checker.childrenPairwiseIndependent fuel children := by
  induction children with
  | nil => rfl
  | cons a rest ih =>
    obtain ⟨ha, hrest⟩ := forall_mem_cons.mp hchildren
    rw [childrenPairwiseIndependent, childrenPairwiseIndependent, ih hrest,
      allM_congr_mem fun b hb => ?_]
    simp only [areIndependent, reachable, h.reachableInner_eq fuel ha,
      h.reachableInner_eq fuel (hrest b hb)]

end

theorem childrenAt_eq (op : Combinator) (missing shape : String) (hid : S id) :
    checker'.dag.childrenAt op missing shape id = checker.dag.childrenAt op missing shape id := by
  simp only [childrenAt, h.node id hid]

theorem timeoutNode_eq (missing shape : String) (hid : S id) :
    checker'.dag.timeoutNode missing shape id = checker.dag.timeoutNode missing shape id := by
  simp only [timeoutNode, h.node id hid]

theorem checkJoinChildren_eq (policy : RewritePolicy) (hchildren : ∀ c ∈ children, S c) :
    checkJoinChildren policy checker'.dag children =
      checkJoinChildren policy checker.dag children := by
  refine mapM_congr_mem fun c hc => ?_
  rw [h.childrenAt_eq .join _ _ (hchildren c hc)]

end Agree

end SideConditionChecker

section Shapes

variable {dag : PlanDag} {id : Nat}

variable {children : List Nat} {joins : List (List Nat)}

theorem PlanDag.childrenAt_eq_ok {op : Combinator} {missing shape : String} (h : dag.childrenAt op missing shape id = .ok children) :
    dag.node id = some (op.node children) := by
  rw [childrenAt] at h
  split at h
  · cases h
  · rename_i node hnode
    split at h
    · rename_i children' hop
      cases h
      rw [hnode, Combinator.childrenOf_eq_some_iff.mp hop]
    · cases h

theorem checkJoinChildren_eq_ok {policy : RewritePolicy} (h : checkJoinChildren policy dag children = .ok joins) :
    Forall₂ (fun c joinNodes => dag.node c = some (.join joinNodes)) children joins := by
  induction children generalizing joins with
  | nil =>
    cases h
    exact .nil
  | cons child rest ih =>
    rw [checkJoinChildren, mapM_cons] at h
    cases hchild : dag.childrenAt .join "missing join child" "race child is not Join" child with
    | error e =>
      rw [hchild] at h
      cases h
    | ok joinNodes =>
      rw [hchild] at h
      cases hbinary : require
          (!(policy.requiresBinaryJoins && joinNodes.length != 2))
          "policy requires binary joins" with
      | error e =>
        simp only [bind, Except.bind, hbinary] at h
        cases h
      | ok _ =>
        simp only [bind, Except.bind, hbinary, pure, Except.pure] at h
        split at h
        · cases h
        · rename_i joins' hrest
          cases h
          exact .cons (childrenAt_eq_ok hchild) (ih hrest)

theorem raceCandidate_mem {shared candidate : Nat} (h : raceCandidate shared children = .ok candidate) : candidate ∈ children := by
  rw [raceCandidate.eq_def] at h
  split at h
  · rename_i a b
    split at h
    · cases h
      exact mem_cons_of_mem a mem_cons_self
    · split at h
      · cases h
        exact mem_cons_self
      · cases h
  · cases h

theorem mem_of_intersection {shared : Nat}
    (h : intersection joins = [shared]) : ∃ joinNodes ∈ joins, shared ∈ joinNodes := by
  match joins, h with
  | first :: rest, h =>
    have hmem : shared ∈ intersection (first :: rest) := by
      rw [h]
      exact mem_cons_self
    rw [intersection, mem_filter, mem_dedup] at hmem
    exact ⟨first, mem_cons_self, hmem.1⟩

end Shapes

@[simp] theorem liftCheck_ok_bind {α β : Type} (a : α) (k : α → ExceptT String Option β) :
    liftCheck (.ok a) >>= k = k a := rfl

namespace SideConditionChecker.Agree

variable {checker checker' : SideConditionChecker} {S : Nat → Prop} {before after : Nat}
  (h : Agree S checker checker') (hbefore : S before) (hafter : S after)

include h hbefore hafter

theorem checkCommute_eq (fuel : Nat) (op : Combinator) (policy : RewritePolicy) :
    checkCommute fuel op policy checker' checker'.dag before after =
      checkCommute fuel op policy checker checker.dag before after := by
  simp only [checkCommute, h.childrenAt_eq op _ _ hbefore, h.childrenAt_eq op _ _ hafter]
  cases hchildren : checker.dag.childrenAt op ("missing before " ++ op.word)
      ("before node is not " ++ op.name) before with
  | error e => rfl
  | ok children =>
    have hinside : ∀ c ∈ children, S c := by
      intro c hc
      refine h.closed before hbefore _ (childrenAt_eq_ok hchildren) c ?_
      rwa [Combinator.children_node]
    simp only [liftCheck_ok_bind, h.childrenPairwiseIndependent_eq fuel hinside]

section

variable (policy : RewritePolicy)

theorem checkTimeoutMin_eq :
    checkTimeoutMin policy checker'.dag before after =
      checkTimeoutMin policy checker.dag before after := by
  simp only [checkTimeoutMin, h.timeoutNode_eq _ _ hbefore]
  cases hnode : checker.dag.timeoutNode "missing before timeout" "before node is not Timeout"
      before with
  | error e => rfl
  | ok pair =>
    obtain ⟨child, duration⟩ := pair
    have hchild : S child := by
      rw [timeoutNode] at hnode
      split at hnode <;> cases hnode
      exact h.closed before hbefore _ ‹_› child mem_cons_self
    simp only [h.timeoutNode_eq _ _ hafter, bind, Except.bind, h.timeoutNode_eq _ _ hchild]

omit hbefore in
theorem checkDedupBranches_eq (joins : List (List Nat)) {shared : Nat} (hshared : S shared) :
    checkDedupBranches policy checker'.dag joins shared after =
      checkDedupBranches policy checker.dag joins shared after := by
  simp only [checkDedupBranches, sharedAllowed, h.node shared hshared,
    h.childrenAt_eq .join _ _ hafter]
  cases hchildren : checker.dag.childrenAt .join "missing after join" "after node is not Join"
      after with
  | error e => rfl
  | ok afterChildren =>
    have hinside : ∀ c ∈ afterChildren, S c :=
      h.closed after hafter _ (childrenAt_eq_ok hchildren)
    simp only [bind, Except.bind]
    cases hcandidate : raceCandidate shared afterChildren with
    | error e => rfl
    | ok candidate =>
      have hcandidateInside := hinside candidate (raceCandidate_mem hcandidate)
      simp only [actualBranches, h.node candidate hcandidateInside]
      rw [← actualBranches]
      cases hbranches : actualBranches checker.dag candidate with
      | error e => rfl
      | ok branches =>
        have hbranchesInside : ∀ b ∈ branches, S b := by
          rw [actualBranches] at hbranches
          split at hbranches <;> cases hbranches
          · exact h.closed candidate hcandidateInside _ ‹_›
          · intro b hb
            rwa [mem_singleton.mp hb]
        have hsignatures : branches.mapM checker'.dag.branchSignature =
            branches.mapM checker.dag.branchSignature :=
          mapM_congr_mem fun b hb => by
            simp only [branchSignature, h.node b (hbranchesInside b hb)]
        simp only [hsignatures]

omit hbefore in
theorem checkDedupShared_eq {joins : List (List Nat)}
    (hjoins : ∀ joinNodes ∈ joins, ∀ c ∈ joinNodes, S c) :
    checkDedupShared policy checker'.dag joins after =
      checkDedupShared policy checker.dag joins after := by
  rw [checkDedupShared, checkDedupShared]
  split
  · rename_i shared hshared
    obtain ⟨joinNodes, hjoin, hmem⟩ := mem_of_intersection hshared
    exact h.checkDedupBranches_eq hafter policy joins (hjoins joinNodes hjoin shared hmem)
  · rfl

theorem checkDedupRaceJoin_eq :
    checkDedupRaceJoin policy checker'.dag before after =
      checkDedupRaceJoin policy checker.dag before after := by
  simp only [checkDedupRaceJoin, h.childrenAt_eq .race _ _ hbefore]
  cases hchildren : checker.dag.childrenAt .race "missing before race" "before node is not Race"
      before with
  | error e => rfl
  | ok children =>
    have hinside : ∀ c ∈ children, S c :=
      h.closed before hbefore _ (childrenAt_eq_ok hchildren)
    simp only [bind, Except.bind, h.checkJoinChildren_eq policy hinside]
    cases hjoins : checkJoinChildren policy checker.dag children with
    | error e => rfl
    | ok joins =>
      have hjoinsInside : ∀ joinNodes ∈ joins, ∀ c ∈ joinNodes, S c := by
        intro joinNodes hjoin
        obtain ⟨child, hchild, hnode⟩ :=
          exists_of_forall₂_right (checkJoinChildren_eq_ok hjoins) hjoin
        exact h.closed child (hinside child hchild) _ hnode
      simp only [h.checkDedupShared_eq hafter policy hjoinsInside]

end

theorem checkCommon_eq (rule : RewriteRule) :
    checkCommon rule checker' before after = checkCommon rule checker before after := by
  simp only [checkCommon, obligationsSafe, cancelSafe, rewritePreservesBudget,
    rewriteNoNewObligationLeaks, rewritePreservesLoserDrain, compare, h.get before hbefore,
    h.get after hafter]

theorem checkRule_eq (fuel : Nat) (rule : RewriteRule) (policy : RewritePolicy) :
    checkRule fuel rule policy checker' checker'.dag before after =
      checkRule fuel rule policy checker checker.dag before after := by
  cases rule with
  | joinAssoc => rfl
  | raceAssoc => rfl
  | joinCommute => exact h.checkCommute_eq hbefore hafter fuel .join policy
  | raceCommute => exact h.checkCommute_eq hbefore hafter fuel .race policy
  | timeoutMin => exact congrArg liftCheck (h.checkTimeoutMin_eq hbefore hafter policy)
  | dedupRaceJoin => exact congrArg liftCheck (h.checkDedupRaceJoin_eq hbefore hafter policy)

/-- The side conditions read only what lies below the two ends of the rewrite. -/
theorem checkSideConditions_eq (fuel : Nat) (rule : RewriteRule) (policy : RewritePolicy) :
    checkSideConditions fuel rule policy checker' checker'.dag before after =
      checkSideConditions fuel rule policy checker checker.dag before after := by
  rw [checkSideConditions, checkSideConditions, checkFinalizeOrder, checkFinalizeOrder,
    h.checkCommon_eq hbefore hafter rule, h.rewritePreservesFinalizeOrder_eq fuel hbefore hafter,
    h.checkRule_eq hbefore hafter fuel rule policy]

end SideConditionChecker.Agree

section Returns

variable {checker : SideConditionChecker}

theorem returns_liftCheck {α : Type} (check : Except String α) :
    Returns (fun _ => (liftCheck check).run) := returns_some check

theorem returns_lift {α : Type} {f : Nat → Option α} (h : Returns f) :
    Returns (fun fuel => (ExceptT.lift (f fuel) : ExceptT String Option α).run) := by
  refine (Returns.bind h fun a => returns_some (Except.ok a : Except String α)).imp
    fun _ hsettles => hsettles.congr fun fuel => ?_
  cases f fuel <;> rfl

theorem checkCommute_returns (h : checker.dag.Acyclic) (op : Combinator) (policy : RewritePolicy)
    (dag : PlanDag) (before after : Nat) :
    Returns (fun fuel => (checkCommute fuel op policy checker dag before after).run) := by
  refine Returns.exceptBind (returns_liftCheck _) fun _ => ?_
  refine Returns.exceptBind (returns_liftCheck _) fun children => ?_
  refine Returns.exceptBind
    (returns_lift (checker.childrenPairwiseIndependent_returns h children)) fun _ => ?_
  refine Returns.exceptBind (returns_liftCheck _) fun _ => ?_
  refine Returns.exceptBind (returns_liftCheck _) fun _ => ?_
  exact Returns.exceptBind (returns_liftCheck _) fun _ => returns_liftCheck _

/-- On a dag without a cycle the side conditions are decided. -/
theorem checkSideConditions_returns (checker : SideConditionChecker) (h : checker.dag.Acyclic)
    (rule : RewriteRule) (policy : RewritePolicy) (dag : PlanDag) (before after : Nat) :
    Returns (fun fuel => (checkSideConditions fuel rule policy checker dag before after).run) := by
  refine Returns.exceptBind (returns_liftCheck _) fun _ => Returns.exceptBind ?_ fun _ => ?_
  · simp only [checkFinalizeOrder]
    split
    · exact Returns.exceptBind
        (returns_lift (checker.rewritePreservesFinalizeOrder_returns h before after))
        fun _ => returns_liftCheck _
    · exact returns_some _
  · cases rule with
    | joinAssoc | raceAssoc | timeoutMin | dedupRaceJoin => exact returns_liftCheck _
    | joinCommute => exact checkCommute_returns h .join policy dag before after
    | raceCommute => exact checkCommute_returns h .race policy dag before after

end Returns

end Asupersync
