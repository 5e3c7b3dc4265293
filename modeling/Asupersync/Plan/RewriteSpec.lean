import Asupersync.Plan.Rewrite
import Asupersync.Plan.Validation

/-!
# What a rewrite rule does to the dag

Every rule does the same thing in the end: it adds some nodes, and redirects the
parents of the rewritten node and the root to the last of them
(`Matches.of_applyRuleUnchecked`).  What the rules differ in is when they match
and which nodes they add; `Matches` says this for each of them, and the children
of the added nodes are always nodes properly below the rewritten one or nodes
added before (`Matches.freshChildren`).
-/

namespace Asupersync

open Lib.GraphFold Combinator List Option

section Redirect

variable {old new : Nat}

theorem redirectId_self (old new : Nat) : redirectId old new old = new := if_pos rfl

theorem redirectId_of_ne {c : Nat} (h : c ≠ old) : redirectId old new c = c := if_neg h

theorem redirectId_idem (old new c : Nat) :
    redirectId old new (redirectId old new c) = redirectId old new c := by
  by_cases h : c = old
  · rw [h, redirectId_self]
    by_cases hnew : new = old
    · rw [hnew, redirectId_self]
    · exact redirectId_of_ne hnew
  · rw [redirectId_of_ne h, redirectId_of_ne h]

namespace PlanNode

@[simp] theorem children_redirect (node : PlanNode) :
    (node.redirect old new).children = node.children.map (redirectId old new) := by
  cases node <;> rfl

@[simp] theorem kind_redirect (node : PlanNode) : (node.redirect old new).kind = node.kind := by
  cases node <;> rfl

theorem redirect_eq_self {node : PlanNode} (h : ∀ c ∈ node.children, redirectId old new c = c) :
    node.redirect old new = node := by
  have hmap : ∀ cs : List Nat, (∀ c ∈ cs, redirectId old new c = c) →
      cs.map (redirectId old new) = cs := fun cs hcs => (map_congr_left hcs).trans (map_id cs)
  cases node with
  | leaf label => rfl
  | join children => exact congrArg join (hmap children h)
  | race children => exact congrArg race (hmap children h)
  | timeout child d => exact congrArg (timeout · d) (h child mem_cons_self)

theorem redirect_idem (node : PlanNode) :
    (node.redirect old new).redirect old new = node.redirect old new := by
  refine redirect_eq_self fun c hc => ?_
  rw [children_redirect, List.mem_map] at hc
  obtain ⟨d, -, rfl⟩ := hc
  exact redirectId_idem old new d

theorem redirect_of_notMem {node : PlanNode} (h : old ∉ node.children) :
    node.redirect old new = node :=
  redirect_eq_self fun _ hc => redirectId_of_ne fun heq => h (heq ▸ hc)

end PlanNode

end Redirect

section Modify

variable {α : Type}

/-- Applying an idempotent change at the listed positions, some of them repeatedly. -/
theorem getElem?_foldl_modify {f : α → α} (hf : ∀ a, f (f a) = f a) (positions : List Nat)
    (xs : List α) (i : Nat) :
    (positions.foldl (fun xs p => xs.modify p f) xs)[i]? =
      if i ∈ positions then xs[i]?.map f else xs[i]? := by
  induction positions generalizing xs with
  | nil => simp
  | cons p rest ih =>
    rw [foldl_cons, ih, getElem?_modify]
    by_cases hp : p = i
    · subst hp
      cases xs[p]? <;> simp [hf]
    · have hmem : i ∈ p :: rest ↔ i ∈ rest := by
        simp [Ne.symm hp]
      simp only [hp, hmem, if_false]
      cases xs[i]? <;> simp

end Modify

namespace PlanDag

variable {dag : PlanDag} {id : Nat}

/-- The dag with more nodes at its end. -/
def extend (dag : PlanDag) (fresh : List PlanNode) : PlanDag :=
  { dag with nodes := dag.nodes ++ fresh }

/-- The dag with every edge to `old`, and the root, redirected to `new`. -/
def redirect (dag : PlanDag) (old new : Nat) : PlanDag :=
  { nodes := dag.nodes.map (PlanNode.redirect old new)
    root := dag.root.map (redirectId old new) }

theorem mem_parentMap {target i : Nat} :
    i ∈ dag.parentMap target ↔ ∃ node, dag.node i = some node ∧ target ∈ node.children := by
  simp only [parentMap, mem_flatMap, List.mem_map, mem_filter, decide_eq_true_eq,
    Prod.exists, mem_zipIdx_iff_getElem?]
  constructor
  · rintro ⟨node, idx, hnode, c, ⟨hc, rfl⟩, rfl⟩
    exact ⟨node, hnode, hc⟩
  · rintro ⟨node, hnode, htarget⟩
    exact ⟨node, i, hnode, target, ⟨htarget, rfl⟩, rfl⟩

theorem nodes_replaceParents (dag : PlanDag) (old new : Nat) :
    (dag.replaceParents old new).nodes = dag.nodes.map (PlanNode.redirect old new) := by
  refine ext_getElem? fun i => ?_
  rw [replaceParents, getElem?_foldl_modify PlanNode.redirect_idem, getElem?_map]
  split
  · rfl
  · rename_i hparent
    cases hnode : dag.nodes[i]? with
    | none => rfl
    | some node =>
      have hnotMem : old ∉ node.children := fun hold =>
        hparent (mem_parentMap.mpr ⟨node, hnode, hold⟩)
      exact congrArg some (PlanNode.redirect_of_notMem hnotMem).symm

theorem replaceParents_eq (dag : PlanDag) (old new : Nat) :
    dag.replaceParents old new =
      { nodes := dag.nodes.map (PlanNode.redirect old new), root := dag.root } :=
  congrArg (fun nodes => mk nodes dag.root) (nodes_replaceParents dag old new)

theorem finishRewrite_eq (dag : PlanDag) (rule : RewriteRule) (before after : Nat)
    (detail : String) :
    dag.finishRewrite rule before after detail =
      (dag.redirect before after, ⟨rule, before, after, detail⟩) := by
  simp only [finishRewrite, replaceParents_eq, redirect]
  cases dag.root with
  | none => rfl
  | some root =>
    by_cases hbefore : root = before
    · simp [hbefore, redirectId_self]
    · simp [hbefore, redirectId_of_ne hbefore]

/-- The id of the last of the new nodes. -/
def newId (dag : PlanDag) (fresh : List PlanNode) : Nat := dag.nodes.length + (fresh.length - 1)

/-- The nodes are added at the end, and the last of them takes the place of `id`. -/
def install (dag : PlanDag) (id : Nat) (fresh : List PlanNode) : PlanDag :=
  (dag.extend fresh).redirect id (dag.newId fresh)

theorem pushNode_eq (dag : PlanDag) (node : PlanNode) :
    dag.pushNode node = (dag.extend [node], dag.nodes.length) := rfl

theorem extend_extend (dag : PlanDag) (fresh more : List PlanNode) :
    (dag.extend fresh).extend more = dag.extend (fresh ++ more) := by
  simp only [extend, append_assoc]

theorem extend_nil (dag : PlanDag) : dag.extend [] = dag := by
  simp only [extend, append_nil]

@[simp] theorem length_extend (dag : PlanDag) (fresh : List PlanNode) :
    (dag.extend fresh).nodes.length = dag.nodes.length + fresh.length := length_append

theorem node_extend_of_node {node : PlanNode} (fresh : List PlanNode)
    (h : dag.node id = some node) : (dag.extend fresh).node id = some node := by
  rw [PlanDag.node, extend, getElem?_append_left (lt_length_of_node h)]
  exact h

theorem node_extend_add (dag : PlanDag) (fresh : List PlanNode) (j : Nat) :
    (dag.extend fresh).node (dag.nodes.length + j) = fresh[j]? := by
  rw [node, extend, getElem?_append_right (Nat.le_add_right _ _), Nat.add_sub_cancel_left]

theorem length_install (dag : PlanDag) (id : Nat) (fresh : List PlanNode) :
    (dag.install id fresh).nodes.length = dag.nodes.length + fresh.length := by
  rw [install, redirect, length_map, length_extend]

theorem node_redirect (dag : PlanDag) (old new i : Nat) :
    (dag.redirect old new).node i = (dag.node i).map (PlanNode.redirect old new) :=
  getElem?_map

/-- What one child contributes to a flattened node. -/
def expandChild (dag : PlanDag) (op : Combinator) (child : Nat) : List Nat :=
  match (dag.node child).bind op.childrenOf with
  | some inner => inner
  | none => [child]

end PlanDag

namespace Combinator

theorem childrenOf_eq_some_iff {op : Combinator} {node : PlanNode} {children : List Nat} :
    op.childrenOf node = some children ↔ node = op.node children := by
  cases op <;> cases node <;> simp [childrenOf, node]

section

variable (op : Combinator) (children : List Nat)

@[simp] theorem childrenOf_node :
    op.childrenOf (op.node children) = some children := childrenOf_eq_some_iff.mpr rfl

@[simp] theorem children_node : (op.node children).children = children := by
  cases op <;> rfl

theorem isEmptyGroup_node : (op.node children).isEmptyGroup = children.isEmpty := by
  cases op <;> rfl

end

def assocRule : Combinator → RewriteRule
  | .join => .joinAssoc
  | .race => .raceAssoc

def commuteRule : Combinator → RewriteRule
  | .join => .joinCommute
  | .race => .raceCommute

end Combinator

namespace PlanDag

variable {dag dag' : PlanDag} {id : Nat} {op : Combinator} {policy : RewritePolicy}

variable {children : List Nat}

theorem foldlM_flatten {flattened result : List Nat} {changed changed' : Bool} (h : children.foldlM
      (fun (flattened, changed) child => do
        let node ← dag.node child
        match op.childrenOf node with
        | some inner => some (flattened ++ inner, true)
        | none => some (flattened ++ [child], changed))
      (flattened, changed) = some (result, changed')) :
    result = flattened ++ children.flatMap (dag.expandChild op) ∧
      ∀ c ∈ children, dag.node c ≠ none := by
  induction children generalizing flattened changed with
  | nil =>
    cases h
    exact ⟨by simp, fun c hc => absurd hc not_mem_nil⟩
  | cons child rest ih =>
    rw [foldlM_cons] at h
    cases hnode : dag.node child with
    | none => simp [hnode] at h
    | some node =>
      have hpresent : dag.node child ≠ none := by simp [hnode]
      cases hop : op.childrenOf node with
      | some inner | none =>
        simp only [hnode, hop, bind_eq_bind, bind_some] at h
        obtain ⟨hresult, hrest⟩ := ih h
        refine ⟨?_, forall_mem_cons.mpr ⟨hpresent, hrest⟩⟩
        simp [hresult, expandChild, hnode, hop]

theorem flatten_spec {flattened : List Nat} {changed : Bool}
    (h : dag.flatten op children = some (flattened, changed)) :
    flattened = children.flatMap (dag.expandChild op) ∧ ∀ c ∈ children, dag.node c ≠ none :=
  foldlM_flatten h

/-- One branch of the new race stands for the rest of one join: it is that rest, if it
is a single node, or one of the added joins over it. -/
def Branch (length shared : Nat) (extra : List PlanNode) (joinNodes : List Nat) (branch : Nat) :
    Prop :=
  shared ∈ joinNodes ∧
    (joinNodes.erase shared = [branch] ∨
      ∃ j, extra[j]? = some (.join (joinNodes.erase shared)) ∧ branch = length + j)

/-- The branches of the joins, and the joins that were added for them. -/
structure Branched (length shared : Nat) (joins : List (List Nat)) (extra : List PlanNode)
    (branches : List Nat) : Prop where
  branch : List.Forall₂ (Branch length shared extra) joins branches
  extra_of : ∀ node ∈ extra, ∃ joinNodes ∈ joins,
    node = .join (joinNodes.erase shared) ∧ joinNodes.erase shared ≠ []

variable {shared : Nat} {extra : List PlanNode}

theorem Branch.append {length branch : Nat} {joinNodes : List Nat}
    (h : Branch length shared extra joinNodes branch) (more : List PlanNode) :
    Branch length shared (extra ++ more) joinNodes branch := by
  refine ⟨h.1, h.2.imp_right ?_⟩
  rintro ⟨j, hj, hbranch⟩
  refine ⟨j, ?_, hbranch⟩
  rw [getElem?_append_left (List.getElem?_eq_some_iff.mp hj).1]
  exact hj

theorem Branched.nil (length shared : Nat) : Branched length shared [] [] [] :=
  ⟨Forall₂.nil, fun _ h => absurd h not_mem_nil⟩

variable {joins : List (List Nat)} {branches : List Nat}

/-- One turn of the loop over the joins. -/
theorem Branched.pushBranch {branches' joinNodes : List Nat}
    (hdone : Branched dag.nodes.length shared joins extra branches)
    (h : pushBranch policy shared (dag.extend extra, branches) joinNodes = some (dag', branches')) :
    ∃ extra', dag' = dag.extend extra' ∧
      Branched dag.nodes.length shared (joins ++ [joinNodes]) extra' branches' := by
  have hold : ∀ node ∈ extra, ∃ joinNodes' ∈ joins ++ [joinNodes],
      node = .join (joinNodes'.erase shared) ∧ joinNodes'.erase shared ≠ [] := by
    intro node hnode
    obtain ⟨joinNodes', hmem, hjoin⟩ := hdone.extra_of node hnode
    exact ⟨joinNodes', mem_append_left _ hmem, hjoin⟩
  simp only [PlanDag.pushBranch] at h
  split at h
  · cases h
  rename_i hshared
  rw [not_not] at hshared
  split at h
  · cases h
  rename_i hnonempty
  rw [List.isEmpty_iff] at hnonempty
  split at h
  · cases h
  split at h
  · rename_i branch hrest
    cases h
    refine ⟨extra, rfl, ?_, hold⟩
    exact rel_append hdone.branch (List.Forall₂.cons ⟨hshared, .inl hrest⟩ .nil)
  rw [pushNode_eq, extend_extend, length_extend] at h
  cases h
  refine ⟨extra ++ [.join (joinNodes.erase shared)], rfl, ?_, ?_⟩
  · refine rel_append (hdone.branch.imp fun _ _ hb => hb.append _)
      (List.Forall₂.cons ⟨hshared, .inr ⟨extra.length, ?_, rfl⟩⟩ .nil)
    rw [getElem?_append_right le_rfl, Nat.sub_self]
    rfl
  · intro node hnode
    rcases mem_append.mp hnode with hnode | hnode
    · exact hold node hnode
    · refine ⟨joinNodes, mem_append_right _ mem_cons_self, ?_, hnonempty⟩
      exact mem_singleton.mp hnode

theorem Branched.foldlM {rest : List (List Nat)} {branches' : List Nat}
    (hdone : Branched dag.nodes.length shared joins extra branches)
    (h : rest.foldlM (PlanDag.pushBranch policy shared) (dag.extend extra, branches) =
      some (dag', branches')) :
    ∃ extra', dag' = dag.extend extra' ∧
      Branched dag.nodes.length shared (joins ++ rest) extra' branches' := by
  induction rest generalizing joins extra branches with
  | nil =>
    cases h
    exact ⟨extra, rfl, by rwa [append_nil]⟩
  | cons joinNodes rest ih =>
    rw [foldlM_cons, bind_eq_bind, bind_eq_some_iff] at h
    obtain ⟨⟨between, branches₁⟩, hstep, hrest⟩ := h
    obtain ⟨extra₁, rfl, hbetween⟩ := hdone.pushBranch hstep
    obtain ⟨extra', hdag', hall⟩ := ih hbetween hrest
    rw [append_assoc] at hall
    exact ⟨extra', hdag', hall⟩

/-- The rule matches at `id` and adds the nodes `fresh`. -/
inductive Matches (dag : PlanDag) (id : Nat) (policy : RewritePolicy) (rule : RewriteRule)
    (fresh : List PlanNode) : Prop
  | assoc (op : Combinator) (children flattened : List Nat)
      (hrule : rule = op.assocRule)
      (hnode : dag.node id = some (op.node children))
      (hflat : dag.flatten op children = some (flattened, true))
      (hfresh : fresh = [op.node flattened])
  | commute (op : Combinator) (children : List Nat)
      (hrule : rule = op.commuteRule)
      (hnode : dag.node id = some (op.node children))
      (hfresh : fresh = [op.node (sortIds children)])
  | timeoutMin (child inner duration innerDuration : Nat)
      (hrule : rule = .timeoutMin)
      (hnode : dag.node id = some (.timeout child duration))
      (hinner : dag.node child = some (.timeout inner innerDuration))
      (hfresh : fresh =
        [.timeout inner (if duration ≤ innerDuration then duration else innerDuration)])
  | dedup (children : List Nat) (joins : List (List Nat)) (shared : Nat)
      (extra : List PlanNode) (branches : List Nat)
      (hrule : rule = .dedupRaceJoin)
      (hnode : dag.node id = some (.race children))
      (hlength : 2 ≤ children.length)
      (hbinary : (policy.requiresBinaryJoins && children.length != 2) = false)
      (hjoins : dag.joinChildren policy children = some joins)
      (hshared : intersection joins = [shared])
      (hallowed : dag.sharedAllowed policy shared = true)
      (hbranches : Branched dag.nodes.length shared joins extra branches)
      (hfresh : fresh = extra ++ [.race branches, .join [shared, dag.nodes.length + extra.length]])

theorem joinChildren_spec (h : dag.joinChildren policy children = some joins) :
    Forall₂ (fun c joinNodes => dag.node c = some (.join joinNodes)) children joins := by
  induction children generalizing joins with
  | nil =>
    cases h
    exact .nil
  | cons child rest ih =>
    simp only [joinChildren, mapM_cons, bind_eq_bind, bind_eq_some_iff] at h
    obtain ⟨joinNodes, hchild, joins', hrest, hjoins⟩ := h
    cases hjoins
    refine Forall₂.cons ?_ (ih hrest)
    split at hchild
    · rename_i joinNodes' hnode
      split at hchild
      · cases hchild
      · cases hchild
        exact hnode
    · cases hchild

section Unchecked

variable {rule : RewriteRule} {detail : String} {result : PlanDag × RewriteStep}

/-- The result of a rule that adds the nodes `fresh`. -/
def installed (dag : PlanDag) (id : Nat) (rule : RewriteRule) (fresh : List PlanNode)
    (detail : String) : PlanDag × RewriteStep :=
  (dag.install id fresh, ⟨rule, id, dag.newId fresh, detail⟩)

theorem rewriteAssoc_spec (h : dag.rewriteAssoc op rule detail id policy = some result) :
    ∃ children flattened, dag.node id = some (op.node children) ∧
      dag.flatten op children = some (flattened, true) ∧
      result = dag.installed id rule [op.node flattened] detail := by
  rw [rewriteAssoc] at h
  split at h
  · cases h
  simp only [bind_eq_bind, bind_eq_some_iff] at h
  obtain ⟨node, hnode, children, hchildren, ⟨flattened, changed⟩, hflat, hfinish⟩ := h
  rw [childrenOf_eq_some_iff] at hchildren
  subst hchildren
  cases changed with
  | false => cases hfinish
  | true =>
    refine ⟨children, flattened, hnode, hflat, ?_⟩
    rw [← some.inj hfinish, pushNode_eq]
    exact finishRewrite_eq _ _ _ _ _

theorem rewriteCommute_spec (h : dag.rewriteCommute op rule detail id policy = some result) :
    ∃ children, dag.node id = some (op.node children) ∧
      result = dag.installed id rule [op.node (sortIds children)] detail := by
  rw [rewriteCommute] at h
  split at h
  · cases h
  simp only [bind_eq_bind, bind_eq_some_iff] at h
  obtain ⟨node, hnode, children, hchildren, hfinish⟩ := h
  rw [childrenOf_eq_some_iff] at hchildren
  subst hchildren
  split at hfinish
  · cases hfinish
  split at hfinish
  · cases hfinish
  refine ⟨children, hnode, ?_⟩
  rw [← some.inj hfinish, pushNode_eq]
  exact finishRewrite_eq _ _ _ _ _

theorem timeoutAt_eq_some_iff {child duration : Nat} :
    dag.timeoutAt id = some (child, duration) ↔ dag.node id = some (.timeout child duration) := by
  rw [timeoutAt]
  split
  · rename_i child' duration' hnode
    simp [hnode]
  · rename_i hother
    constructor
    · intro h
      cases h
    · intro h
      exact absurd h (hother child duration)

theorem rewriteTimeoutMin_spec (h : dag.rewriteTimeoutMin id policy = some result) :
    ∃ child duration inner innerDuration, dag.node id = some (.timeout child duration) ∧
      dag.node child = some (.timeout inner innerDuration) ∧
      result = dag.installed id .timeoutMin
        [.timeout inner (if duration ≤ innerDuration then duration else innerDuration)]
        "collapsed nested timeouts" := by
  rw [rewriteTimeoutMin] at h
  split at h
  · cases h
  simp only [bind_eq_bind, bind_eq_some_iff] at h
  obtain ⟨⟨child, duration⟩, hnode, ⟨inner, innerDuration⟩, hinner, hfinish⟩ := h
  rw [timeoutAt_eq_some_iff] at hnode hinner
  refine ⟨child, duration, inner, innerDuration, hnode, hinner, ?_⟩
  rw [← some.inj hfinish, pushNode_eq]
  exact finishRewrite_eq _ _ _ _ _

/-- At least two branches make a race. -/
theorem pushRace_of_length {branches : List Nat} (h : 2 ≤ branches.length) :
    dag.pushRace branches = dag.pushNode (.race branches) := by
  match branches, h with
  | _ :: _ :: _, _ => rfl

theorem rewriteDedupRaceJoin_spec (h : dag.rewriteDedupRaceJoin id policy = some result) :
    ∃ fresh detail, Matches dag id policy .dedupRaceJoin fresh ∧
      result = dag.installed id .dedupRaceJoin fresh detail := by
  rw [rewriteDedupRaceJoin] at h
  simp only [bind_eq_bind, bind_eq_some_iff] at h
  obtain ⟨node, hnode, children, hchildren, h⟩ := h
  rw [childrenOf_eq_some_iff] at hchildren
  subst hchildren
  split at h
  · cases h
  split at h
  · cases h
  rename_i hbinary
  simp only [bind_eq_some_iff] at h
  obtain ⟨joins, hjoins, h⟩ := h
  split at h
  · cases h
  split at h
  · rename_i shared hshared
    split at h
    · cases h
    rename_i hallowed
    simp only [bind_eq_some_iff] at h
    obtain ⟨⟨dag₁, branches⟩, hloop, hfinish⟩ := h
    have hstart : dag = dag.extend [] := (extend_nil dag).symm
    rw [hstart] at hloop
    obtain ⟨extra, rfl, hbranches⟩ := (Branched.nil dag.nodes.length shared).foldlM hloop
    have hbranchCount : 2 ≤ branches.length := by
      have hjoinCount := (joinChildren_spec hjoins).length_eq
      have hbranchLength := hbranches.branch.length_eq
      rw [nil_append] at hbranchLength
      omega
    refine ⟨_, "deduped shared child " ++ toString shared ++ " across " ++
        toString joins.length ++ " joins",
      Matches.dedup children joins shared extra branches rfl hnode (by omega)
        (Bool.not_eq_true _ ▸ hbinary) hjoins hshared ?_ hbranches rfl, ?_⟩
    · simpa using hallowed
    · rw [pushRace_of_length hbranchCount] at hfinish
      simp only [pushNode_eq, extend_extend, finishRewrite_eq, length_extend, append_assoc,
        cons_append, nil_append] at hfinish
      rw [← some.inj hfinish]
      simp only [installed, install, newId, length_append, length_cons, length_nil]
      rfl
  · cases h

/-- Every rule adds some nodes and puts the last of them in the place of `id`. -/
theorem Matches.of_applyRuleUnchecked (h : dag.applyRuleUnchecked id policy rule = some result) :
    ∃ fresh detail, Matches dag id policy rule fresh ∧
      result = dag.installed id rule fresh detail := by
  cases rule with
  | joinAssoc | raceAssoc =>
    obtain ⟨children, flattened, hnode, hflat, hresult⟩ := rewriteAssoc_spec h
    exact ⟨_, _, .assoc _ children flattened (by rfl) hnode hflat rfl, hresult⟩
  | joinCommute | raceCommute =>
    obtain ⟨children, hnode, hresult⟩ := rewriteCommute_spec h
    exact ⟨_, _, .commute _ children (by rfl) hnode rfl, hresult⟩
  | timeoutMin =>
    obtain ⟨child, duration, inner, innerDuration, hnode, hinner, hresult⟩ :=
      rewriteTimeoutMin_spec h
    exact ⟨_, _, .timeoutMin child inner duration innerDuration rfl hnode hinner rfl, hresult⟩
  | dedupRaceJoin => exact rewriteDedupRaceJoin_spec h

end Unchecked

/-- The node `c` is properly below `id`. -/
def Below (dag : PlanDag) (id c : Nat) : Prop :=
  Relation.TransGen (fun a b => Child dag.graph b a) id c

section Fresh

variable {rule : RewriteRule} {fresh : List PlanNode} {node inner : PlanNode} {c child : Nat}
  {α β : Type*} {R : α → β → Prop} {xs : List α} {ys : List β}

theorem Below.of_child (hnode : dag.node id = some node) (hc : c ∈ node.children) :
    Below dag id c := Relation.TransGen.single ((child_iff hnode c).mpr hc)

theorem Below.of_grandchild (hnode : dag.node id = some node) (hchild : child ∈ node.children)
    (hinner : dag.node child = some inner) (hc : c ∈ inner.children) : Below dag id c :=
  Relation.TransGen.tail (Below.of_child hnode hchild) ((child_iff hinner c).mpr hc)

theorem exists_of_forall₂_left {x : α} (h : Forall₂ R xs ys) (hx : x ∈ xs) : ∃ y ∈ ys, R x y := by
  induction h with
  | nil => exact absurd hx not_mem_nil
  | @cons x' y xs ys hxy _ ih =>
    rcases mem_cons.mp hx with rfl | hx
    · exact ⟨y, mem_cons_self, hxy⟩
    · obtain ⟨y', hy', hR⟩ := ih hx
      exact ⟨y', mem_cons_of_mem y hy', hR⟩

theorem exists_of_forall₂_right {y : β} (h : Forall₂ R xs ys) (hy : y ∈ ys) : ∃ x ∈ xs, R x y :=
  exists_of_forall₂_left h.flip hy

variable {joins : List (List Nat)}

theorem Branched.shared_mem {length shared : Nat} {extra : List PlanNode}
    {branches joinNodes : List Nat} (h : Branched length shared joins extra branches)
    (hmem : joinNodes ∈ joins) :
    shared ∈ joinNodes := by
  obtain ⟨branch, -, hbranch⟩ := exists_of_forall₂_left h.branch hmem
  exact hbranch.1

theorem mem_expandChild (hc : c ∈ dag.expandChild op child) :
    c = child ∨ ∃ inner, dag.node child = some (op.node inner) ∧ c ∈ inner := by
  rw [expandChild] at hc
  split at hc
  · rename_i inner hinner
    obtain ⟨node, hnode, hop⟩ := bind_eq_some_iff.mp hinner
    rw [childrenOf_eq_some_iff] at hop
    exact .inr ⟨inner, hop ▸ hnode, hc⟩
  · exact .inl (mem_singleton.mp hc)

variable (h : Matches dag id policy rule fresh)

include h

theorem Matches.fresh_ne_nil : fresh ≠ [] := by
  cases h <;> simp_all

theorem Matches.exists_node : ∃ node, dag.node id = some node := by
  cases h with
  | assoc _ _ _ _ hnode | commute _ _ _ hnode | timeoutMin _ _ _ _ _ hnode
  | dedup _ _ _ _ _ _ hnode => exact ⟨_, hnode⟩

/-- The new nodes are over nodes properly below the rewritten one and over new nodes
that were added before them. -/
theorem Matches.freshChildren (j : Nat) (hj : fresh[j]? = some node) (hc : c ∈ node.children) :
    Below dag id c ∨ dag.nodes.length ≤ c ∧ c < dag.nodes.length + j := by
  cases h with
  | assoc op children flattened hrule hnode hflat hfresh =>
    subst hfresh
    obtain rfl := mem_singleton.mp (mem_of_getElem? hj)
    rw [children_node, (flatten_spec hflat).1, mem_flatMap] at hc
    obtain ⟨child, hchild, hc⟩ := hc
    have hchild' : child ∈ (op.node children).children := by rwa [children_node]
    rcases mem_expandChild hc with rfl | ⟨inner, hinner, hc⟩
    · exact .inl (Below.of_child hnode hchild')
    · exact .inl (Below.of_grandchild hnode hchild' hinner (by rwa [children_node]))
  | commute op children hrule hnode hfresh =>
    subst hfresh
    obtain rfl := mem_singleton.mp (mem_of_getElem? hj)
    rw [children_node, sortIds, mem_insertionSort] at hc
    exact .inl (Below.of_child hnode (by rwa [children_node]))
  | timeoutMin child inner duration innerDuration hrule hnode hinner hfresh =>
    subst hfresh
    obtain rfl := mem_singleton.mp (mem_of_getElem? hj)
    obtain rfl := mem_singleton.mp hc
    exact .inl (Below.of_grandchild hnode mem_cons_self hinner mem_cons_self)
  | dedup _ joins shared extra _ _ hnode _ _ hjoins hshared _ hbranches hfresh =>
      subst hfresh
      have hbelow : ∀ joinNodes ∈ joins, ∀ c ∈ joinNodes, Below dag id c := by
        intro joinNodes hjoin c hc
        obtain ⟨child, hchild, hinner⟩ :=
          exists_of_forall₂_right (joinChildren_spec hjoins) hjoin
        exact Below.of_grandchild hnode hchild hinner hc
      rcases Nat.lt_or_ge j extra.length with hlt | hge
      · rw [getElem?_append_left hlt] at hj
        obtain ⟨joinNodes, hjoin, rfl, -⟩ := hbranches.extra_of node (mem_of_getElem? hj)
        exact .inl (hbelow joinNodes hjoin c (mem_of_mem_erase hc))
      rw [getElem?_append_right hge] at hj
      obtain ⟨k, rfl⟩ := Nat.exists_eq_add_of_le hge
      rw [Nat.add_sub_cancel_left] at hj
      rcases k with _ | _ | k
      · cases hj
        obtain ⟨joinNodes, hjoin, hshared', hbranch⟩ := exists_of_forall₂_right hbranches.branch hc
        rcases hbranch with herase | ⟨i, hi, rfl⟩
        · have hrest : c ∈ joinNodes.erase shared := herase ▸ mem_cons_self
          exact .inl (hbelow joinNodes hjoin c (mem_of_mem_erase hrest))
        · have hi' := (List.getElem?_eq_some_iff.mp hi).1
          exact .inr ⟨by omega, by omega⟩
      · cases hj
        rcases mem_cons.mp hc with rfl | hc
        · cases joins with
          | nil => cases hshared
          | cons joinNodes rest =>
            exact .inl (hbelow joinNodes mem_cons_self c
              (hbranches.shared_mem mem_cons_self))
        · rw [mem_singleton] at hc
          exact .inr ⟨by omega, by omega⟩
      · cases hj

end Fresh

end PlanDag

end Asupersync
