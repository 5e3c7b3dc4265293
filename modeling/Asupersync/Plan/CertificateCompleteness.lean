import Asupersync.Plan.Certificate
import Asupersync.Plan.RewriteSoundness

/-!
# Certificates of the rewrite pass are accepted

The verifier checks every step on the dag the whole pass has left, while the step
was taken on an earlier one.  What makes this work is the order of the pass: in a dag
whose children have smaller ids, the turn at node `k` only changes edges of nodes
between `k` and the end of the original nodes.  So the part of the dag that the step
looked at (the nodes up to `k` and the added ones) is settled: it is closed under
children, and no later turn changes it (`Settled`, `Settled.turn`).  Shapes and side
conditions only depend on that part.
-/

namespace Asupersync

open Lib.GraphFold Lib.Fuel SideConditionChecker Option

namespace PlanDag

variable {dag dag' : PlanDag} {n k id fuel : Nat} {policy : RewritePolicy} {rule : RewriteRule}
  {rules : List RewriteRule} {fresh : List PlanNode} {i : Nat} {node : PlanNode}

/-- The nodes that no turn from the one at `k` on changes, of a dag that began with `n` nodes. -/
def Done (n k i : Nat) : Prop := i < k ∨ n ≤ i

theorem Done.succ (h : Done n k i) : Done n (k + 1) i := by
  rcases h with h | h
  · exact .inl (Nat.lt_succ_of_lt h)
  · exact .inr h

theorem Done.ne (h : Done n k i) (hk : k < n) : i ≠ k := by
  rcases h with h | h
  · exact Nat.ne_of_lt h
  · omega

/-- A node over what is done has no edge to the one whose turn it is. -/
theorem redirect_of_done (hk : k < n) {new : Nat}
    (hchildren : ∀ c ∈ node.children, Done n k c) : node.redirect k new = node :=
  PlanNode.redirect_of_notMem fun hmem => (hchildren k hmem).ne hk rfl

/-- Before the turn at `k`: what is done is closed under children, and the other nodes
are over smaller ones or added ones. -/
structure Settled (n k : Nat) (dag : PlanDag) : Prop where
  grounded : dag.Grounded
  length : n ≤ dag.nodes.length
  done : ∀ i node, dag.node i = some node → Done n k i → ∀ c ∈ node.children, Done n k c
  pending : ∀ i node, dag.node i = some node → k ≤ i → i < n → ∀ c ∈ node.children, Done n i c

theorem Ordered.settled (h : dag.Ordered) : Settled dag.nodes.length 0 dag where
  grounded := h.grounded
  length := le_rfl
  done := by
    intro i node hnode hi
    have hlt := lt_length_of_node hnode
    rcases hi with hi | hi <;> omega
  pending := fun i node hnode _ _ c hc => .inl (h i node hnode c hc)

/-- The nodes `dag` has that are done at `k` are unchanged in `dag'`. -/
def KeptFrom (n k : Nat) (dag dag' : PlanDag) : Prop :=
  ∀ i node, Done n k i → dag.node i = some node → dag'.node i = some node

theorem KeptFrom.refl (n k : Nat) (dag : PlanDag) : KeptFrom n k dag dag := fun _ _ _ h => h

theorem KeptFrom.trans {between : PlanDag} (h₁ : KeptFrom n k dag between)
    (h₂ : KeptFrom n k between dag') : KeptFrom n k dag dag' :=
  fun i node hi hnode => h₂ i node hi (h₁ i node hi hnode)

theorem KeptFrom.of_succ (h : KeptFrom n (k + 1) dag dag') : KeptFrom n k dag dag' :=
  fun i node hi hnode => h i node hi.succ hnode

namespace Settled

variable (h : Settled n k dag)

include h

variable (hk : k < n)

include hk

/-- The node of the turn itself is over what is done. -/
theorem done_succ : ∀ i node, dag.node i = some node → Done n (k + 1) i →
    ∀ c ∈ node.children, Done n k c := by
  intro i node hnode hi c hc
  rcases hi with hi | hi
  · rcases Nat.lt_succ_iff_lt_or_eq.mp hi with hi | rfl
    · exact h.done i node hnode (.inl hi) c hc
    · exact h.pending i node hnode le_rfl hk c hc
  · exact h.done i node hnode (.inr hi) c hc

/-- A turn that rewrites nothing. -/
theorem skip : Settled n (k + 1) dag where
  grounded := h.grounded
  length := h.length
  done := fun i node hnode hi c hc => (h.done_succ hk i node hnode hi c hc).succ
  pending := fun i node hnode hi => h.pending i node hnode (Nat.le_of_succ_le hi)

theorem done_of_below {c : Nat} (hbelow : Below dag k c) : Done n k c := by
  have hchild : ∀ a b, Child dag.graph b a → Done n (k + 1) a → Done n k b := by
    intro a b hb ha
    obtain ⟨node, hnode, hb⟩ := exists_node_of_child hb
    exact h.done_succ hk a node hnode ha b hb
  induction hbelow with
  | single hb => exact hchild k _ hb (.inl (Nat.lt_succ_self k))
  | tail _ hb ih => exact hchild _ _ hb ih.succ

/-- The children of the new nodes are done. -/
theorem fresh_children (hmatches : Matches dag k policy rule fresh) {j c : Nat}
    (hj : fresh[j]? = some node) (hc : c ∈ node.children) : Done n k c := by
  rcases hmatches.freshChildren j hj hc with hbelow | ⟨hge, -⟩
  · exact h.done_of_below hk hbelow
  · exact .inr (Nat.le_trans h.length hge)

theorem install_fresh (hmatches : Matches dag k policy rule fresh) {j : Nat}
    (hj : fresh[j]? = some node) :
    (dag.install k fresh).node (dag.nodes.length + j) = some node := by
  rw [install, node_redirect, node_extend_add, hj, map_some,
    redirect_of_done hk fun c hc => h.fresh_children hk hmatches hj hc]

/-- A turn changes nothing up to its own node, nor any added node. -/
theorem install_kept : KeptFrom n (k + 1) dag (dag.install k fresh) := by
  intro i node hi hnode
  rw [install, node_redirect, node_extend_of_node fresh hnode, map_some,
    redirect_of_done hk (h.done_succ hk i node hnode hi)]

/-- A node of the rewritten dag is an old one, redirected, or a new one. -/
theorem install_cases (hmatches : Matches dag k policy rule fresh)
    (hnode : (dag.install k fresh).node i = some node) :
    (∃ old, dag.node i = some old ∧ node = old.redirect k (dag.newId fresh)) ∨
      n ≤ i ∧ ∀ c ∈ node.children, Done n k c := by
  rcases Nat.lt_or_ge i dag.nodes.length with hlt | hge
  · obtain ⟨old, hold⟩ : ∃ old, dag.node i = some old := ⟨_, List.getElem?_eq_getElem hlt⟩
    rw [install, node_redirect, node_extend_of_node fresh hold, map_some] at hnode
    exact .inl ⟨old, hold, (some.inj hnode).symm⟩
  obtain ⟨j, rfl⟩ := Nat.exists_eq_add_of_le hge
  refine .inr ⟨Nat.le_trans h.length hge, ?_⟩
  cases hj : fresh[j]? with
  | none =>
    rw [install, node_redirect, node_extend_add, hj] at hnode
    cases hnode
  | some new =>
    rw [h.install_fresh hk hmatches hj] at hnode
    cases hnode
    exact fun c hc => h.fresh_children hk hmatches hj hc

/-- A turn that rewrites its node. -/
theorem turn (hmatches : Matches dag k policy rule fresh) :
    Settled n (k + 1) (dag.install k fresh) where
  grounded := h.grounded.install hmatches
  length := by
    rw [length_install]
    exact Nat.le_trans h.length (Nat.le_add_right _ _)
  done := by
    intro i node hnode hi c hc
    rcases h.install_cases hk hmatches hnode with ⟨old, hold, rfl⟩ | ⟨-, hchildren⟩
    · have hchildren := h.done_succ hk i old hold hi
      rw [redirect_of_done hk hchildren] at hc
      exact (hchildren c hc).succ
    · exact (hchildren c hc).succ
  pending := by
    intro i node hnode hi hin c hc
    rcases h.install_cases hk hmatches hnode with ⟨old, hold, rfl⟩ | ⟨hge, -⟩
    · rw [PlanNode.children_redirect, List.mem_map] at hc
      obtain ⟨c', hc', rfl⟩ := hc
      have hold' := h.pending i old hold (Nat.le_of_succ_le hi) hin c' hc'
      by_cases heq : c' = k
      · subst heq
        rw [redirectId_self]
        exact .inr (Nat.le_trans h.length (Nat.le_add_right _ _))
      · rwa [redirectId_of_ne heq]
    · exact absurd hin (Nat.not_lt.mpr hge)

end Settled

section Shapes

variable {final : PlanDag} {op : Combinator} {idx : Nat} {step : CertifiedStep}
  {children : List Nat}

theorem beforeChildren_eq (op : Combinator) (expected : String)
    (hnode : final.node step.before = some (op.node children)) :
    final.beforeChildren op idx step expected = .ok children := by
  rw [beforeChildren, hnode]
  simp only [Combinator.childrenOf_node]

theorem afterChildren_eq (op : Combinator) (expected : String)
    (hnode : final.node step.after = some (op.node children)) :
    final.afterChildren op idx step expected = .ok children := by
  rw [afterChildren, hnode]
  simp only [Combinator.childrenOf_node]

theorem timeoutOr_eq {child duration : Nat} (missing shape : StepVerifyError)
    (hnode : final.node id = some (.timeout child duration)) :
    timeoutOr final id missing shape = .ok (child, duration) := by
  rw [timeoutOr, hnode]

theorem isPermutation_sortIds (children : List Nat) :
    isPermutation children (sortIds children) = true := by
  have hperm : (sortIds children).Perm children := List.perm_insertionSort _ children
  have hsorted : sortIds (children.map (· % 2 ^ 32)) =
      sortIds ((sortIds children).map (· % 2 ^ 32)) :=
    List.Perm.eq_of_pairwise' (List.pairwise_insertionSort _ _) (List.pairwise_insertionSort _ _)
      (((List.perm_insertionSort _ _).trans (hperm.map _).symm).trans
        (List.perm_insertionSort _ _).symm)
  rw [isPermutation, hperm.length_eq, hsorted]
  simp

/-- The step as the certificate has it. -/
def certifiedStep (dag : PlanDag) (id : Nat) (rule : RewriteRule) (fresh : List PlanNode)
    (detail : String) : CertifiedStep :=
  ⟨rule, id, dag.newId fresh, detail⟩

/-- The nodes a step of the turn at `k` looked at, as they are in a later dag. -/
structure Replays (n k : Nat) (dag : PlanDag) (fresh : List PlanNode) (final : PlanDag) : Prop where
  kept : KeptFrom n (k + 1) dag final
  added : ∀ j node, fresh[j]? = some node → final.node (dag.nodes.length + j) = some node

/-- The node after the step is the last of the added ones. -/
theorem Replays.node_after (h : Replays n k dag fresh final)
    (rest : List PlanNode) (hfresh : fresh = rest ++ [node]) (rule : RewriteRule)
    (detail : String) :
    final.node (dag.certifiedStep k rule fresh detail).after = some node := by
  refine h.added (fresh.length - 1) node ?_
  subst hfresh
  simp

/-- The joins of the race, read again. -/
theorem mapM_verifyJoinChild {joins : List (List Nat)}
    (hjoins : dag.joinChildren policy children = some joins)
    (hsame : ∀ c ∈ children, ∀ node, dag.node c = some node → final.node c = some node) :
    children.mapM (verifyJoinChild policy final idx) = .ok joins := by
  induction children generalizing joins with
  | nil =>
    cases hjoins
    rfl
  | cons child rest ih =>
    simp only [joinChildren, List.mapM_cons, bind_eq_bind, bind_eq_some_iff] at hjoins
    obtain ⟨joinNodes, hchild, joins', hrest, hjoins⟩ := hjoins
    cases hjoins
    obtain ⟨hsameChild, hsameRest⟩ := List.forall_mem_cons.mp hsame
    have hhead : verifyJoinChild policy final idx child = .ok joinNodes := by
      split at hchild
      · rename_i joinNodes' hnode
        split at hchild
        · cases hchild
        · rename_i hbinary
          cases hchild
          rw [verifyJoinChild, hsameChild _ hnode]
          exact if_neg hbinary
      · cases hchild
    rw [List.mapM_cons, hhead, ih hrest hsameRest]
    rfl

theorem sharedAllowed_of_kept {shared : Nat} (hallowed : dag.sharedAllowed policy shared = true)
    (hsame : ∀ node, dag.node shared = some node → final.node shared = some node) :
    final.sharedAllowed policy shared = true := by
  rw [sharedAllowed, Bool.or_eq_true] at hallowed ⊢
  refine hallowed.imp_right fun hleaf => ?_
  split at hleaf
  · rename_i label hnode
    rw [hsame _ hnode]
  · cases hleaf

end Shapes

section Verified

variable {final : PlanDag} {idx : Nat} {checker checker' : SideConditionChecker}

/-- The shapes a rule left are there for the verifier. -/
theorem Settled.shape_verified (h : Settled n k dag) (hk : k < n)
    (hmatches : Matches dag k policy rule fresh) (hreplays : Replays n k dag fresh final)
    (detail : String) :
    verifyShape idx (dag.certifiedStep k rule fresh detail) policy final = .ok () := by
  have hself : ∀ node, dag.node k = some node →
      final.node (dag.certifiedStep k rule fresh detail).before = some node :=
    fun node hnode => hreplays.kept k node (.inl (Nat.lt_succ_self k)) hnode
  have hbelow : ∀ c node, Below dag k c → dag.node c = some node → final.node c = some node :=
    fun c node hc hnode => hreplays.kept c node (h.done_of_below hk hc).succ hnode
  cases hmatches with
  | assoc op children flattened hrule hnode hflat hfresh =>
    have hafter := hreplays.node_after [] hfresh rule detail
    have hflat' : final.flatten op children = some (flattened, true) := by
      rw [← hflat]
      refine foldlM_congr_mem (fun c hc acc => ?_) _
      obtain ⟨node, hc'⟩ := ne_none_iff_exists'.mp ((flatten_spec hflat).2 c hc)
      rw [hc', hbelow c node (Below.of_child hnode (by rwa [Combinator.children_node])) hc']
    have hshape : ∀ nested exist shape flat : String,
        verifyAssocShape op nested exist shape flat idx
          (dag.certifiedStep k rule fresh detail) final = .ok () := by
      intro nested exist shape flat
      rw [verifyAssocShape, beforeChildren_eq op nested (hself _ hnode)]
      simp only [bind, Except.bind, hflat', afterChildren_eq op shape hafter, demand]
      simp
    subst hrule
    cases op with
    | join | race => exact hshape _ _ _ _
  | commute op children hrule hnode hfresh =>
    have hafter := hreplays.node_after [] hfresh rule detail
    have hshape : ∀ before after multiset : String, verifyCommuteShape op before after multiset idx
          (dag.certifiedStep k rule fresh detail) final = .ok () := by
      intro before after multiset
      rw [verifyCommuteShape, beforeChildren_eq op before (hself _ hnode)]
      simp only [bind, Except.bind, afterChildren_eq op after hafter, isPermutation_sortIds, demand]
      simp
    subst hrule
    cases op with
    | join | race => exact hshape _ _ _
  | timeoutMin child inner duration innerDuration hrule hnode hinner hfresh =>
    have hafter := hreplays.node_after [] hfresh rule detail
    subst hrule
    have hinner' := hbelow child _ (Below.of_child hnode List.mem_cons_self) hinner
    have hbefore := hself _ hnode
    show verifyTimeoutMinShape idx _ final = .ok ()
    rw [verifyTimeoutMinShape]
    simp only [bind, Except.bind, timeoutOr_eq _ _ hbefore, timeoutOr_eq _ _ hinner',
      timeoutOr_eq _ _ hafter, demand]
    simp
  | dedup children joins shared extra branches hrule hnode hlength hbinary hjoins hshared
      hallowed hbranches hfresh =>
      have hlast : fresh = (extra ++ [.race branches]) ++
          [.join [shared, dag.nodes.length + extra.length]] := by
        rw [hfresh]
        simp
      have hafter := hreplays.node_after _ hlast rule detail
      subst hrule
      have hrace : final.node (dag.nodes.length + extra.length) = some (.race branches) :=
        hreplays.added extra.length _ (by rw [hfresh]; simp)
      have hsharedBelow : Below dag k shared := by
        match joins, hshared with
        | joinNodes :: rest, _ =>
          obtain ⟨child, hchild, hinner⟩ :=
            exists_of_forall₂_right (joinChildren_spec hjoins) List.mem_cons_self
          exact Below.of_grandchild hnode hchild hinner (hbranches.shared_mem List.mem_cons_self)
      have hallowed' := sharedAllowed_of_kept hallowed fun node => hbelow shared node hsharedBelow
      have hjoins' : children.mapM (verifyJoinChild policy final idx) = .ok joins :=
        mapM_verifyJoinChild hjoins fun c hc node => hbelow c node (Below.of_child hnode hc)
      show verifyDedupRaceJoinShape idx _ policy final = .ok ()
      rw [verifyDedupRaceJoinShape, afterChildren_eq .join _ hafter]
      simp only [bind, Except.bind, beforeChildren_eq .race _ (hself _ hnode), hjoins',
        verifyDedupShared, hshared, hallowed', hbinary, demand]
      simp [hlength, isRace, hrace]

/-- The analysis of a node only depends on what is below it. -/
theorem analysisOf_of_kept {S : Nat → Prop} (hd : dag.Acyclic)
    (hclosed : ∀ i, S i → ∀ node, dag.node i = some node → ∀ c ∈ node.children, S c)
    (hsame : ∀ i, S i → final.node i = dag.node i) (hi : S i) :
    PlanAnalyzer.analysisOf final i = PlanAnalyzer.analysisOf dag i := by
  have hchild : ∀ i, S i → ∀ c, Child dag.graph c i → S c := by
    intro i hi c hc
    obtain ⟨node, hnode, hc⟩ := exists_node_of_child hc
    exact hclosed i hi node hnode c hc
  have hgraph : ∀ i, S i → final.graph i = dag.graph i := by
    intro i hi
    rw [graph, graph, hsame i hi]
  exact ((folds_of_acc analysisRule (hd i)).frame hchild hgraph hi).foldValue_eq

/-- The checker of the dag after the turn and that of a later dag see the same of what
is done. -/
theorem Settled.agree (h : Settled n k dag) (hkept : KeptFrom n k dag final)
    (hnew : new fuel dag = some checker) (hnew' : new fuel final = some checker') :
    Agree (fun i => Done n k i ∧ i < dag.nodes.length) checker checker' := by
  obtain ⟨analysis, hanalysis, hchecker⟩ := bind_eq_some_iff.mp hnew
  obtain ⟨analysis', hanalysis', hchecker'⟩ := bind_eq_some_iff.mp hnew'
  cases hchecker
  cases hchecker'
  have hclosed : ∀ i, Done n k i ∧ i < dag.nodes.length → ∀ node, dag.node i = some node →
      ∀ c ∈ node.children, Done n k c ∧ c < dag.nodes.length := by
    intro i hi node hnode c hc
    exact ⟨h.done i node hnode hi.1 c hc, h.grounded.closed i node hnode c hc⟩
  have hsame : ∀ i, Done n k i ∧ i < dag.nodes.length → final.node i = dag.node i := by
    intro i hi
    obtain ⟨node, hnode⟩ : ∃ node, dag.node i = some node := ⟨_, List.getElem?_eq_getElem hi.2⟩
    rw [hnode]
    exact hkept i node hi.1 hnode
  refine ⟨hclosed, hsame, fun i hi => ?_⟩
  have hlt : i < final.nodes.length := by
    refine Nat.lt_of_not_le fun hle => ?_
    have hnone := node_eq_none_iff.mpr hle
    rw [hsame i hi, node_eq_none_iff] at hnone
    exact absurd hi.2 (Nat.not_lt.mpr hnone)
  show analysis'[i]? = analysis[i]?
  rw [PlanAnalyzer.getElem?_of_analyze hanalysis hi.2,
    PlanAnalyzer.getElem?_of_analyze hanalysis' hlt,
    analysisOf_of_kept h.grounded.acyclic hclosed hsame hi]

/-- The side conditions that held after the turn hold for the verifier. -/
theorem Settled.sideConditions_verified (h : Settled n (k + 1) dag')
    (hkept : KeptFrom n (k + 1) dag' final) {step : CertifiedStep}
    (hbefore : step.before = k ∧ k < dag'.nodes.length)
    (hafter : n ≤ step.after ∧ step.after < dag'.nodes.length) (hnew : new fuel dag' = some checker)
    (hnew' : new fuel final = some checker')
    (hchecked : (checkSideConditions fuel step.rule policy checker dag' step.before
      step.after).run = some (.ok ())) :
    verifySideConditions fuel idx step policy final = some (.ok ()) := by
  have hdag := dag_of_new hnew
  have hdag' := dag_of_new hnew'
  have hbeforeDone : Done n (k + 1) step.before := Or.inl (by omega)
  have hsame := (h.agree hkept hnew hnew').checkSideConditions_eq
    ⟨hbeforeDone, by omega⟩ ⟨.inr hafter.1, hafter.2⟩ fuel step.rule policy
  rw [hdag, hdag'] at hsame
  rw [verifySideConditions, hnew']
  simp only [bind_eq_bind, bind_some, hsame, hchecked]
  rfl

end Verified

section Pass

variable {final : PlanDag} {step : RewriteStep} {steps : List RewriteStep}

/-- A rule that was applied matched, and its side conditions held on the dag it left. -/
theorem checked_of_applied
    (h : dag.applyRuleChecked fuel id policy rule = some (some (dag', step))) :
    ∃ fresh detail checker, Matches dag id policy rule fresh ∧
      (dag', step) = dag.installed id rule fresh detail ∧
      new fuel dag' = some checker ∧
      (checkSideConditions fuel rule policy checker dag' step.before step.after).run =
        some (.ok ()) := by
  obtain ⟨hpermits, hunchecked⟩ := unchecked_of_checked h
  obtain ⟨fresh, detail, hmatches, hresult⟩ := Matches.of_applyRuleUnchecked hunchecked
  rw [applyRuleChecked_of_match hpermits hunchecked] at h
  obtain ⟨checker, hchecker, hrest⟩ := bind_eq_some_iff.mp h
  obtain ⟨checked, hchecked, houtcome⟩ := bind_eq_some_iff.mp hrest
  cases checked with
  | error e => cases houtcome
  | ok _ => exact ⟨fresh, detail, checker, hmatches, hresult, hchecker, hchecked⟩

/-- The verifier accepts the step on the dag `final`, wherever it stands in the certificate. -/
def Accepted (fuel : Nat) (policy : RewritePolicy) (final : PlanDag) (step : RewriteStep) : Prop :=
  ∀ idx, verifySingleStep fuel idx (.fromRewriteStep step) policy final = some (.ok ())

/-- One turn that rewrites: what was done stays, and the step is accepted on every later
dag that keeps what is done now. -/
theorem Settled.applied (h : Settled n k dag) (hk : k < n)
    (happlied : dag.applyRules fuel k policy rules = some (some (dag', step))) :
    Settled n (k + 1) dag' ∧ KeptFrom n (k + 1) dag dag' ∧
      ∀ final checker', KeptFrom n (k + 1) dag' final →
        new fuel final = some checker' → Accepted fuel policy final step := by
  obtain ⟨rule, -, hrule⟩ := exists_rule_of_applyRules happlied
  obtain ⟨fresh, detail, checker, hmatches, hresult, hnew, hchecked⟩ := checked_of_applied hrule
  cases hresult
  have hsettled := h.turn hk hmatches
  refine ⟨hsettled, h.install_kept hk, fun final checker' hkept hnew' idx => ?_⟩
  have hreplays : Replays n k dag fresh final := by
    refine ⟨(h.install_kept hk).trans hkept, fun j node hj => ?_⟩
    refine hkept _ node (.inr ?_) (h.install_fresh hk hmatches hj)
    exact Nat.le_trans h.length (Nat.le_add_right _ _)
  have hlength := dag.length_install k fresh
  have hpos : 0 < fresh.length := List.length_pos_iff.mpr hmatches.fresh_ne_nil
  have hnewId : dag.newId fresh = dag.nodes.length + (fresh.length - 1) := rfl
  have hdagLength := h.length
  have hside : verifySideConditions fuel idx (dag.certifiedStep k rule fresh detail) policy final =
      some (.ok ()) := by
    refine hsettled.sideConditions_verified hkept ⟨rfl, by omega⟩ ⟨?_, ?_⟩ hnew hnew' hchecked
    · show n ≤ dag.newId fresh
      omega
    · show dag.newId fresh < _
      omega
  have hshape : verifyShape idx (dag.certifiedStep k rule fresh detail) policy final = .ok () :=
    h.shape_verified hk hmatches hreplays detail
  show verifySingleStep fuel idx (dag.certifiedStep k rule fresh detail) policy final = _
  rw [verifySingleStep, hshape]
  exact hside

/-- The turns from `k` on keep what is done, and their steps are accepted on the dag they leave. -/
theorem Settled.pass {remaining : Nat} {steps' : List RewriteStep} (h : Settled n k dag)
    (hn : k + remaining = n)
    (hpass : (List.range' k remaining).foldlM (rewriteAt fuel policy rules) (dag, steps) =
      some (final, steps')) :
    final.Grounded ∧ KeptFrom n k dag final ∧ ∃ taken, steps' = steps ++ taken ∧
      ∀ checker, new fuel final = some checker →
        ∀ step ∈ taken, Accepted fuel policy final step := by
  induction remaining generalizing k dag steps with
  | zero =>
    cases hpass
    refine ⟨h.grounded, KeptFrom.refl n k _, [], (List.append_nil _).symm, ?_⟩
    exact fun _ _ step hstep => absurd hstep List.not_mem_nil
  | succ remaining ih =>
    have hk : k < n := by omega
    rw [List.range'_succ, pass_cons] at hpass
    obtain ⟨result, hresult, hrest⟩ := bind_eq_some_iff.mp hpass
    cases result with
    | none =>
      obtain ⟨hgrounded, hkept, htaken⟩ := ih (h.skip hk) (by omega) hrest
      exact ⟨hgrounded, hkept.of_succ, htaken⟩
    | some result =>
      obtain ⟨between, step⟩ := result
      obtain ⟨hsettled, hturn, haccepted⟩ := h.applied hk hresult
      obtain ⟨hgrounded, hkept, taken, hsteps, hverified⟩ := ih hsettled (by omega) hrest
      refine ⟨hgrounded, (hturn.trans hkept).of_succ, step :: taken, ?_, ?_⟩
      · rw [hsteps, elim_some, List.append_assoc, List.singleton_append]
      · intro checker hchecker step' hstep'
        rcases List.mem_cons.mp hstep' with rfl | hstep'
        · exact haccepted final checker hkept hchecker
        · exact hverified checker hchecker step' hstep'

end Pass

section Completeness

variable {final : PlanDag} {steps : List RewriteStep}

theorem verifyStepsFrom_of_accepted (h : ∀ step ∈ steps, Accepted fuel policy final step)
    (idx : Nat) :
    verifyStepsFrom fuel policy final idx (steps.map .fromRewriteStep) = some (.ok ()) := by
  induction steps generalizing idx with
  | nil => rfl
  | cons step rest ih =>
    obtain ⟨hstep, hrest⟩ := List.forall_mem_cons.mp h
    rw [List.map_cons, verifyStepsFrom, hstep idx]
    exact ih hrest (idx + 1)

/-- On a dag whose children have smaller ids, the pass returns, and both verifiers accept
its certificate on the dag it leaves. -/
theorem certified_rewrites_verify (sha256 : List UInt8 → Vector UInt8 32) (dag : PlanDag)
    (policy : RewritePolicy) (rules : List RewriteRule) (hordered : dag.Ordered) :
    ∃ dag' steps cert,
      Settles (fun fuel => dag.applyRewritesCertified sha256 fuel policy rules)
        (dag', steps, cert) ∧
      Settles (fun fuel => cert.verify sha256 fuel dag') (.ok ()) ∧
      Settles (fun fuel => cert.verifySteps fuel dag') (.ok ()) := by
  obtain ⟨⟨dag', steps⟩, hpass⟩ : Returns (fun fuel => dag.applyRewrites fuel policy rules) :=
    pass_returns (hordered.grounded.passAcyclic policy rules _) []
  have hrun : ∀ fuel, dag.applyRewrites fuel policy rules = some (dag', steps) →
      dag'.Grounded ∧ ∀ checker, SideConditionChecker.new fuel dag' = some checker →
        ∀ step ∈ steps, Accepted fuel policy dag' step := by
    intro fuel hfuel
    rw [applyRewrites, List.range_eq_range'] at hfuel
    obtain ⟨hgrounded, -, taken, hsteps, haccepted⟩ :=
      hordered.settled.pass (Nat.zero_add _) hfuel
    exact ⟨hgrounded, hsteps ▸ haccepted⟩
  have hgrounded : dag'.Grounded := by
    obtain ⟨bound, hbound⟩ := hpass
    exact (hrun bound (hbound bound le_rfl)).1
  obtain ⟨checker, hchecker⟩ := new_returns hgrounded.acyclic
  obtain ⟨bound, hboth⟩ := hpass.both hchecker
  let cert := certificate sha256 dag dag' policy steps
  have hsteps : ∀ fuel, bound ≤ fuel → cert.verifySteps fuel dag' = some (.ok ()) := by
    intro fuel hfuel
    obtain ⟨hdone, hnew⟩ := hboth fuel hfuel
    exact verifyStepsFrom_of_accepted ((hrun fuel hdone).2 checker hnew) 0
  refine ⟨dag', steps, cert, hpass.bind (settles_some _), ⟨bound, fun fuel hfuel => ?_⟩,
    ⟨bound, hsteps⟩⟩
  dsimp only
  have hheader : cert.verifyHeader sha256 dag' = .ok () := by
    simp [cert, RewriteCertificate.verifyHeader, certificate, demand, bind, Except.bind]
  rw [RewriteCertificate.verify, hheader]
  rw [hsteps fuel hfuel]
  rfl

theorem certified_rewrites_verify_nestedJoins :
    nestedJoins.Ordered ∧ ∃ dag' steps cert,
      Settles (fun fuel => nestedJoins.applyRewritesCertified (fun _ => .replicate 32 0) fuel
        .conservative [.joinAssoc]) (dag', steps, cert) ∧
      Settles (fun fuel => cert.verify (fun _ => .replicate 32 0) fuel dag') (.ok ()) ∧
      Settles (fun fuel => cert.verifySteps fuel dag') (.ok ()) :=
  have hordered : nestedJoins.Ordered := ordered_of_forall_lt (by decide)
  ⟨hordered, certified_rewrites_verify _ nestedJoins .conservative [.joinAssoc] hordered⟩

end Completeness

end PlanDag

end Asupersync
