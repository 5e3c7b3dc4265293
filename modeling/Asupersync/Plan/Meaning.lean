import Asupersync.Lib.OutcomeFamilies
import Asupersync.Plan.RewriteSpec

/-!
# The meaning of a plan, and what a rewrite does to it

A plan means a family of outcome sets.  A leaf delivers itself; a join delivers one
outcome of each child together; a race delivers an outcome of one child; a timeout
delivers what its child delivers.  Every leaf in an outcome carries the tightest
timeout around it, with `⊤` for none.

Adding nodes changes nothing below a valid node.  Redirecting the edges of a node to
another one that is not above it and means the same changes no meaning
(`folds_redirect`), and the last node a rule adds is such a node: this is where the
laws of joins and races are used (`Matches.meaning_newId`).
-/

namespace Asupersync

open Lib.GraphFold Lib.OutcomeFamilies Combinator List PlanNode

/-- A leaf in an outcome, with the tightest timeout around it. -/
abbrev Occurrence := String × WithTop Nat

/-- An outcome under one more timeout. -/
def tighten (duration : Nat) (outcome : Set Occurrence) : Set Occurrence :=
  Set.image (fun leaf => (leaf.1, min leaf.2 (duration : WithTop Nat))) outcome

theorem tighten_tighten (d e : Nat) (outcome : Set Occurrence) :
    tighten d (tighten e outcome) = tighten (if d ≤ e then d else e) outcome := by
  have hmin : min (e : WithTop Nat) (d : WithTop Nat) = ((if d ≤ e then d else e : Nat)) := by
    split
    · rename_i hle
      exact min_eq_right (WithTop.coe_le_coe.mpr hle)
    · rename_i hlt
      exact min_eq_left (WithTop.coe_le_coe.mpr (le_of_not_ge hlt))
  simp only [tighten, Set.image_image, min_assoc, hmin]

/-- How a node combines the families of its children. -/
def meaning : PlanKind → List (Set (Set Occurrence)) → Set (Set Occurrence)
  | .leaf label, _ => {{(label, ⊤)}}
  | .join, families => joinAll families
  | .race, families => raceAll families
  | .timeout duration, [family] => Set.image (tighten duration) family
  | .timeout _, _ => ∅
  | .missing, _ => ∅

namespace Combinator

variable {β : Type}

/-- The operation on families that the combinator stands for. -/
def combine : Combinator → List (Set (Set Occurrence)) → Set (Set Occurrence)
  | .join => joinAll
  | .race => raceAll

theorem combine_singleton (op : Combinator) (family : Set (Set Occurrence)) :
    op.combine [family] = family := by
  cases op with
  | join => exact joinAll_singleton family
  | race => exact raceAll_singleton family

theorem combine_perm (op : Combinator) {fs gs : List (Set (Set Occurrence))} (h : fs.Perm gs) :
    op.combine fs = op.combine gs := by
  cases op with
  | join => exact joinAll_perm h
  | race => exact raceAll_perm h

theorem combine_flatMap (op : Combinator) (xs : List β) (groups : β → List (Set (Set Occurrence))) :
    op.combine (xs.flatMap groups) = op.combine (xs.map fun x => op.combine (groups x)) := by
  cases op with
  | join => exact joinAll_flatMap xs groups
  | race => exact raceAll_flatMap xs groups

end Combinator

namespace PlanDag

variable {dag : PlanDag} {A : Type} {alg : PlanKind → List A → A} {a : A} {x : Nat}
  {node : PlanNode}

/-- The outcome sets of the plan, where it has a root. -/
def outcomeSets (dag : PlanDag) : Option (Set (Set Occurrence)) :=
  dag.root.map fun root => {outcome | ∃ family, Folds dag.graph meaning root family ∧
    outcome ∈ family}

theorem graph_extend {i : Nat} (fresh : List PlanNode)
    (h : dag.node i = some node) : (dag.extend fresh).graph i = dag.graph i := by
  rw [graph_of_node h, graph_of_node (node_extend_of_node fresh h)]

theorem graph_redirect (dag : PlanDag) (old new i : Nat) :
    (dag.redirect old new).graph i =
      ((dag.graph i).1, (dag.graph i).2.map (redirectId old new)) := by
  cases h : dag.node i with
  | none =>
    have h' : (dag.redirect old new).node i = none := by rw [node_redirect, h, Option.map_none]
    rw [graph_of_missing h, graph_of_missing h', map_nil]
  | some node =>
    have h' : (dag.redirect old new).node i = some (node.redirect old new) := by
      rw [node_redirect, h, Option.map_some]
    rw [graph_of_node h, graph_of_node h', children_redirect, kind_redirect]

theorem graph_redirect_of_notMem {old : Nat} (new : Nat) (h : old ∉ (dag.graph x).2) :
    (dag.redirect old new).graph x = dag.graph x := by
  rw [graph_redirect]
  refine Prod.ext rfl ((map_congr_left fun c hc => redirectId_of_ne ?_).trans (map_id _))
  rintro rfl
  exact h hc

/-- New nodes change nothing below a valid node. -/
theorem Valid.folds_extend (fresh : List PlanNode) (hvalid : Valid dag x)
    (h : Folds dag.graph alg x a) : Folds (dag.extend fresh).graph alg x a := by
  refine h.frame (S := Valid dag) (fun i hi c hc => ?_) (fun i hi => ?_) hvalid
  · exact hi.of_reaches (Reaches.of_child hc)
  · obtain ⟨node, hnode, -⟩ := hi.elim
    exact graph_extend fresh hnode

/-- Redirecting edges to a node that means the same and is not above changes no meaning. -/
theorem folds_redirect {old new : Nat} (hapart : ¬ Reaches dag.graph new old)
    (hcarry : ∀ a, Folds dag.graph alg old a → Folds dag.graph alg new a)
    (h : Folds dag.graph alg x a) :
    Folds (dag.redirect old new).graph alg (redirectId old new x) a := by
  refine h.transport (S := fun _ => True) (redirectId old new) (fun _ _ _ _ => trivial)
    (fun i _ => ?_) trivial
  by_cases hi : i = old
  · subst hi
    refine .inr fun a ha => ?_
    rw [redirectId_self]
    -- below the new node nothing points to the old one, so nothing there is redirected
    refine (hcarry a ha).frame (S := fun y => ¬ Reaches dag.graph y i) ?_ ?_ hapart
    · intro y hy c hc hreach
      exact hy ((Reaches.of_child hc).trans hreach)
    · exact fun y hy => graph_redirect_of_notMem new fun hc => hy (Reaches.of_child hc)
  · rw [redirectId_of_ne hi]
    exact .inl (graph_redirect dag old new i)

section Fresh

variable {id : Nat} {policy : RewritePolicy} {rule : RewriteRule} {fresh : List PlanNode}

variable {c : Nat}

theorem Below.extend (fresh : List PlanNode) (h : Below dag id c) :
    Below (dag.extend fresh) id c := by
  have hedge : ∀ a b : Nat, Child dag.graph b a → Child (dag.extend fresh).graph b a := by
    intro a b hchild
    obtain ⟨node, hnode, -⟩ := exists_node_of_child hchild
    rw [Child, graph_extend fresh hnode]
    exact hchild
  exact Relation.TransGen.mono hedge id c h

section

variable (h : Matches dag id policy rule fresh)

include h

/-- No path from the new node comes back to the rewritten one. -/
theorem Matches.not_reaches (hacc : Acc (Child (dag.extend fresh).graph) id) :
    ¬ Reaches (dag.extend fresh).graph (dag.newId fresh) id := by
  have hclosed : ∀ y, Reaches (dag.extend fresh).graph (dag.newId fresh) y →
      Below (dag.extend fresh) id y ∨ dag.nodes.length ≤ y := by
    intro y hreach
    induction hreach with
    | refl => exact .inr (Nat.le_add_right _ _)
    | @tail y c _ hchild ih =>
      rcases ih with hbelow | hge
      · exact .inl (hbelow.tail hchild)
      · obtain ⟨j, rfl⟩ := Nat.exists_eq_add_of_le hge
        cases hj : fresh[j]? with
        | none =>
          rw [Child, graph_of_missing ((node_extend_add dag fresh j).trans hj)] at hchild
          exact absurd hchild not_mem_nil
        | some node =>
          rw [child_iff ((node_extend_add dag fresh j).trans hj)] at hchild
          exact (h.freshChildren j hj hchild).imp (Below.extend fresh) And.left
  intro hback
  rcases hclosed id hback with hbelow | hge
  · exact not_transGen_self hacc hbelow
  · obtain ⟨node, hnode⟩ := h.exists_node
    exact absurd hge (Nat.not_le_of_lt (lt_length_of_node hnode))

/-- What holds of every node below the rewritten one, and of every new node over such
nodes, holds of all new nodes. -/
theorem Matches.fresh_induction {Q : Nat → Prop} (hbelow : ∀ c, Below (dag.extend fresh) id c → Q c)
    (hstep : ∀ (j : Nat) node, fresh[j]? = some node → (∀ c ∈ node.children, Q c) →
      Q (dag.nodes.length + j)) (j : Nat) (hj : j < fresh.length) : Q (dag.nodes.length + j) := by
  induction j using Nat.strongRecOn with
  | ind j ih =>
    have hnode : fresh[j]? = some fresh[j] := getElem?_eq_getElem hj
    refine hstep j fresh[j] hnode fun c hc => ?_
    rcases h.freshChildren j hnode hc with hc | ⟨hge, hlt⟩
    · exact hbelow c (hc.extend fresh)
    · obtain ⟨i, rfl⟩ := Nat.exists_eq_add_of_le hge
      exact ih i (by omega) (by omega)

theorem Matches.acc_fresh (hacc : Acc (Child (dag.extend fresh).graph) id) (j : Nat) (hj : j < fresh.length) :
    Acc (Child (dag.extend fresh).graph) (dag.nodes.length + j) := by
  refine h.fresh_induction (fun c hc => acc_of_reaches hacc hc.to_reflTransGen) ?_ j hj
  intro j node hnode hchildren
  refine Acc.intro _ fun c hc => hchildren c ?_
  exact (child_iff ((node_extend_add dag fresh j).trans hnode) c).mp hc

theorem Matches.newId_lt : fresh.length - 1 < fresh.length :=
  Nat.sub_lt (length_pos_iff.mpr h.fresh_ne_nil) Nat.one_pos

/-- The meaning of a node from which no infinite path starts. -/
noncomputable def meaningOf (dag : PlanDag) (i : Nat) : Set (Set Occurrence) :=
  foldValue dag.graph meaning i

end

variable {i : Nat}

theorem meaningOf_eq (hnode : dag.node i = some node) (hacc : Acc (Child dag.graph) i) :
    dag.meaningOf i = meaning node.kind (node.children.map dag.meaningOf) :=
  foldValue_of_acc meaning (graph_of_node hnode) hacc

variable {op : Combinator} {children : List Nat}

theorem meaningOf_combinator (hnode : dag.node i = some (op.node children)) (hacc : Acc (Child dag.graph) i) :
    dag.meaningOf i = op.combine (children.map dag.meaningOf) := by
  rw [meaningOf_eq hnode hacc, children_node]
  cases op <;> rfl

theorem acc_child (hnode : dag.node i = some node)
    (hacc : Acc (Child dag.graph) i) (hc : c ∈ node.children) : Acc (Child dag.graph) c :=
  hacc.inv ((child_iff hnode c).mpr hc)

/-- Flattening one level of a combinator keeps what it means. -/
theorem combine_flatten {extended : PlanDag} (hsame : ∀ c ∈ children, extended.node c = dag.node c)
    (hacc : ∀ c ∈ children, Acc (Child extended.graph) c) :
    op.combine ((children.flatMap (dag.expandChild op)).map extended.meaningOf) =
      op.combine (children.map extended.meaningOf) := by
  rw [map_flatMap, combine_flatMap]
  refine congrArg op.combine (map_congr_left fun c hc => ?_)
  rw [expandChild]
  split
  · rename_i inner hinner
    obtain ⟨node, hnode, hop⟩ := Option.bind_eq_some_iff.mp hinner
    rw [childrenOf_eq_some_iff] at hop
    subst hop
    exact (meaningOf_combinator ((hsame c hc).trans hnode) (hacc c hc)).symm
  · exact combine_singleton op _

variable {shared : Nat} {joins : List (List Nat)} {family : Set (Set Occurrence)}
  {branches : List Nat}

/-- A branch of the new race means the rest of its join. -/
theorem meaningOf_branch {branch : Nat} {extra more : List PlanNode} {joinNodes : List Nat}
    (h : Branch dag.nodes.length shared extra joinNodes branch) (hacc : ∀ j, j < extra.length →
      Acc (Child (dag.extend (extra ++ more)).graph) (dag.nodes.length + j)) :
    (dag.extend (extra ++ more)).meaningOf branch =
      joinAll ((joinNodes.erase shared).map (dag.extend (extra ++ more)).meaningOf) := by
  rcases h.2 with hsingle | ⟨j, hj, rfl⟩
  · rw [hsingle, map_singleton, joinAll_singleton]
  · have hlt := (List.getElem?_eq_some_iff.mp hj).1
    have hnode : (dag.extend (extra ++ more)).node (dag.nodes.length + j) =
        some (join.node (joinNodes.erase shared)) := by
      rw [node_extend_add, getElem?_append_left hlt]
      exact hj
    exact meaningOf_combinator hnode (hacc j hlt)

/-- The race of the joins is the shared child together with the race of the rests. -/
theorem meaning_dedup (value : Nat → Set (Set Occurrence))
    (hchildren : Forall₂ (fun c joinNodes => value c = joinAll (joinNodes.map value))
      children joins) (hbranches : Forall₂ (fun joinNodes branch => shared ∈ joinNodes ∧
      value branch = joinAll ((joinNodes.erase shared).map value)) joins branches) :
    both (value shared) (raceAll (branches.map value)) = raceAll (children.map value) := by
  have hleft : children.map value = joins.map fun joinNodes => joinAll (joinNodes.map value) :=
    forall₂_eq_eq_eq ▸ forall₂_map_left_iff.mpr (forall₂_map_right_iff.mpr hchildren)
  have hright : (joins.map fun joinNodes => joinAll (joinNodes.map value)) =
      branches.map fun branch => both (value shared) (value branch) := by
    refine forall₂_eq_eq_eq ▸ rel_map (fun joinNodes branch h => ?_) hbranches
    rw [joinAll_perm ((perm_cons_erase h.1).map value), map_cons, joinAll_cons, h.2]
  rw [both_raceAll, map_map, hleft, hright]
  rfl

/-- The law of the last rule: the shared child moves out of the race. -/
theorem meaning_newId_dedup {extra : List PlanNode}
    (hfresh : fresh = extra ++ [.race branches, .join [shared, dag.nodes.length + extra.length]])
    (hnode : dag.node id = some (.race children))
    (hjoins : Forall₂ (fun c joinNodes => dag.node c = some (.join joinNodes)) children joins)
    (hbranches : Branched dag.nodes.length shared joins extra branches)
    (hacc : Acc (Child (dag.extend fresh).graph) id) (haccFresh : ∀ j, j < fresh.length →
      Acc (Child (dag.extend fresh).graph) (dag.nodes.length + j)) :
    (dag.extend fresh).meaningOf (dag.newId fresh) = (dag.extend fresh).meaningOf id := by
  subst hfresh
  set tail : List PlanNode := [.race branches, .join [shared, dag.nodes.length + extra.length]]
    with htail
  set extended := dag.extend (extra ++ tail) with hextended
  have hlength : (extra ++ tail).length = extra.length + 2 := length_append
  have hidNode : extended.node id = some (Combinator.race.node children) :=
    node_extend_of_node _ hnode
  have hrace : extended.node (dag.nodes.length + extra.length) =
      some (Combinator.race.node branches) := by
    rw [hextended, node_extend_add, getElem?_append_right le_rfl, Nat.sub_self]
    rfl
  have hjoin : extended.node (dag.newId (extra ++ tail)) =
      some (Combinator.join.node [shared, dag.nodes.length + extra.length]) := by
    rw [newId, hlength, hextended, node_extend_add, getElem?_append_right (by omega)]
    simp [htail, Combinator.node]
  have hchildValues : Forall₂
      (fun c joinNodes => extended.meaningOf c = joinAll (joinNodes.map extended.meaningOf))
      children joins := by
    refine ((forall₂_and_left _ _).mpr ⟨fun c hc => acc_child hidNode hacc hc, hjoins⟩).imp ?_
    rintro c joinNodes ⟨hchildAcc, hchild⟩
    have hchildNode : extended.node c = some (Combinator.join.node joinNodes) :=
      node_extend_of_node _ hchild
    exact meaningOf_combinator hchildNode hchildAcc
  have hbranchValues : Forall₂
      (fun joinNodes branch => shared ∈ joinNodes ∧
        extended.meaningOf branch = joinAll ((joinNodes.erase shared).map extended.meaningOf))
      joins branches :=
    hbranches.branch.imp fun joinNodes branch h =>
      ⟨h.1, meaningOf_branch h fun j hj => haccFresh j (by omega)⟩
  have hnewAcc : Acc (Child extended.graph) (dag.newId (extra ++ tail)) :=
    haccFresh _ (by omega)
  calc extended.meaningOf (dag.newId (extra ++ tail))
      = joinAll ([shared, dag.nodes.length + extra.length].map extended.meaningOf) :=
        meaningOf_combinator hjoin hnewAcc
    _ = both (extended.meaningOf shared)
          (extended.meaningOf (dag.nodes.length + extra.length)) := by
        rw [map_cons, map_singleton, joinAll_cons, joinAll_singleton]
    _ = both (extended.meaningOf shared) (raceAll (branches.map extended.meaningOf)) := by
        rw [meaningOf_combinator hrace (haccFresh _ (by omega))]
        rfl
    _ = raceAll (children.map extended.meaningOf) :=
        meaning_dedup extended.meaningOf hchildValues hbranchValues
    _ = extended.meaningOf id := (meaningOf_combinator hidNode hacc).symm

/-- The last node a rule adds means what the rewritten node means. -/
theorem Matches.meaning_newId (h : Matches dag id policy rule fresh)
    (hacc : Acc (Child (dag.extend fresh).graph) id) :
    (dag.extend fresh).meaningOf (dag.newId fresh) = (dag.extend fresh).meaningOf id := by
  have haccFresh := h.acc_fresh hacc
  have haccNew := haccFresh (fresh.length - 1) h.newId_lt
  have hnew := node_extend_add dag fresh (fresh.length - 1)
  cases h with
  | assoc op children flattened hrule hnode hflat hfresh =>
    subst hfresh
    obtain ⟨rfl, hpresent⟩ := flatten_spec hflat
    have hidNode := node_extend_of_node [op.node (children.flatMap (dag.expandChild op))] hnode
    rw [newId, meaningOf_combinator hnew haccNew, meaningOf_combinator hidNode hacc]
    refine combine_flatten (fun c hc => ?_) (fun c hc => ?_)
    · obtain ⟨node, hc⟩ := Option.ne_none_iff_exists'.mp (hpresent c hc)
      exact (node_extend_of_node _ hc).trans hc.symm
    · exact acc_child hidNode hacc (by rwa [children_node])
  | commute op children hrule hnode hfresh =>
    subst hfresh
    have hidNode := node_extend_of_node [op.node (sortIds children)] hnode
    rw [newId, meaningOf_combinator hnew haccNew, meaningOf_combinator hidNode hacc]
    exact op.combine_perm ((perm_insertionSort (· ≤ ·) children).map _)
  | timeoutMin child inner duration innerDuration hrule hnode hinner hfresh =>
    have hidNode := node_extend_of_node fresh hnode
    have hinnerNode := node_extend_of_node fresh hinner
    subst hfresh
    rw [newId, meaningOf_eq hnew haccNew, meaningOf_eq hidNode hacc]
    simp only [kind, children, map_cons, map_nil, meaning]
    rw [meaningOf_eq hinnerNode (acc_child hidNode hacc mem_cons_self)]
    simp only [kind, children, map_cons, map_nil, meaning]
    rw [Set.image_image]
    exact Set.image_congr fun outcome _ => (tighten_tighten _ _ outcome).symm
  | dedup _ _ _ _ _ _ hnode _ _ hjoins _ _ hbranches hfresh =>
      exact meaning_newId_dedup hfresh hnode (joinChildren_spec hjoins) hbranches hacc haccFresh

theorem expandChild_ne_nil (h : Valid dag c) : dag.expandChild op c ≠ [] := by
  rw [expandChild]
  split
  · rename_i inner hinner
    obtain ⟨node, hnode, hgroup, -⟩ := h.elim
    rw [hnode, Option.bind_some, childrenOf_eq_some_iff] at hinner
    rw [hinner, isEmptyGroup_node] at hgroup
    intro hnil
    rw [hnil] at hgroup
    cases hgroup
  · exact cons_ne_nil c []

section

variable (h : Matches dag id policy rule fresh)

include h

/-- No new node over valid nodes is an empty join or race. -/
theorem Matches.fresh_nonempty (hvalid : Valid dag id) :
    ∀ node ∈ fresh, node.isEmptyGroup = false := by
  obtain ⟨node, hidNode, hgroup, hchildren⟩ := hvalid.elim
  cases h with
  | assoc op children flattened hrule hnode hflat hfresh =>
    cases hidNode.symm.trans hnode
    rw [children_node] at hchildren
    rw [hfresh, forall_mem_singleton, isEmptyGroup_node, (flatten_spec hflat).1,
      isEmpty_eq_false_iff]
    match children, hgroup with
    | child :: rest, _ =>
      intro hnil
      exact expandChild_ne_nil (hchildren child mem_cons_self) (append_eq_nil_iff.mp hnil).1
  | commute op children hrule hnode hfresh =>
    cases hidNode.symm.trans hnode
    rw [isEmptyGroup_node, isEmpty_eq_false_iff] at hgroup
    rw [hfresh, forall_mem_singleton, isEmptyGroup_node, isEmpty_eq_false_iff]
    intro hnil
    have hlength := length_insertionSort (· ≤ ·) children
    rw [sortIds] at hnil
    rw [hnil] at hlength
    exact hgroup (length_eq_zero_iff.mp hlength.symm)
  | timeoutMin child inner duration innerDuration hrule hnode hinner hfresh =>
    rw [hfresh, forall_mem_singleton]
    rfl
  | dedup _ _ _ _ branches _ _ hlength _ hjoins _ _ hbranches hfresh =>
      have hbranchCount : 0 < branches.length := by
        have hjoinCount := (joinChildren_spec hjoins).length_eq
        have hbranchLength := hbranches.branch.length_eq
        omega
      intro node hmem
      rw [hfresh] at hmem
      rcases mem_append.mp hmem with hmem | hmem
      · obtain ⟨joinNodes, -, rfl, hne⟩ := hbranches.extra_of node hmem
        exact isEmpty_eq_false_iff.mpr hne
      · rcases mem_cons.mp hmem with rfl | hmem
        · exact isEmpty_eq_false_iff.mpr (length_pos_iff.mp hbranchCount)
        · rw [mem_singleton.mp hmem]
          rfl

theorem Matches.valid_newId (hvalid : Valid dag id) :
    Valid (dag.extend fresh) (dag.newId fresh) := by
  have hextended : Valid (dag.extend fresh) id := hvalid.folds_extend fresh hvalid
  refine h.fresh_induction (fun c hc => hextended.of_reaches hc.to_reflTransGen) ?_ _ h.newId_lt
  intro j node hnode hchildren
  exact Valid.intro ((node_extend_add dag fresh j).trans hnode)
    (h.fresh_nonempty hvalid node (mem_of_getElem? hnode)) hchildren

/-- What the new node takes over from the rewritten one, every valid node keeps. -/
theorem Matches.folds_install (hx : Valid dag x)
    (hcarry : Valid dag id → ∀ a, Folds (dag.extend fresh).graph alg id a →
      Folds (dag.extend fresh).graph alg (dag.newId fresh) a) (hfold : Folds dag.graph alg x a) :
    Folds (dag.install id fresh).graph alg (redirectId id (dag.newId fresh) x) a := by
  by_cases hreach : Reaches dag.graph x id
  · have hvalid := hx.of_reaches hreach
    have hacc : Acc (Child (dag.extend fresh).graph) id :=
      Folds.acc (hvalid.folds_extend fresh hvalid)
    exact folds_redirect (h.not_reaches hacc) (hcarry hvalid) (hx.folds_extend fresh hfold)
  -- below `x` nothing points to the rewritten node
  have hne : x ≠ id := by
    rintro rfl
    exact hreach (Reaches.refl x)
  rw [redirectId_of_ne hne]
  refine hfold.frame (S := fun y => Valid dag y ∧ ¬ Reaches dag.graph y id) ?_ ?_ ⟨hx, hreach⟩
  · intro y hy c hc
    have hyc := Reaches.of_child hc
    exact ⟨hy.1.of_reaches hyc, fun hreach => hy.2 (hyc.trans hreach)⟩
  · intro y hy
    obtain ⟨node, hnode, -⟩ := hy.1.elim
    have hgraph := graph_extend fresh hnode
    refine (graph_redirect_of_notMem _ fun hc => ?_).trans hgraph
    rw [hgraph] at hc
    exact hy.2 (Reaches.of_child hc)

theorem Matches.valid_install (hx : Valid dag x) :
    Valid (dag.install id fresh) (redirectId id (dag.newId fresh) x) := by
  refine h.folds_install hx (fun hvalid a ha => ?_) hx
  have hold : Valid (dag.extend fresh) id := hvalid.folds_extend fresh hvalid
  rw [ha.unique hold]
  exact h.valid_newId hvalid

theorem Matches.meaning_install (hx : Valid dag x) (hfold : Folds dag.graph meaning x family) :
    Folds (dag.install id fresh).graph meaning (redirectId id (dag.newId fresh) x) family := by
  refine h.folds_install hx (fun hvalid a ha => ?_) hfold
  have haccNew := h.acc_fresh ha.acc _ h.newId_lt
  have hnew := folds_of_acc meaning haccNew
  have hsame : foldValue (dag.extend fresh).graph meaning (dag.newId fresh) = a :=
    (h.meaning_newId ha.acc).trans ha.foldValue_eq
  exact hsame ▸ hnew

end

theorem outcomeSets_of_folds {root : Nat}
    (hroot : dag.root = some root) (h : Folds dag.graph meaning root family) :
    dag.outcomeSets = some family := by
  rw [outcomeSets, hroot, Option.map_some]
  refine congrArg some (Set.ext fun outcome => ?_)
  constructor
  · rintro ⟨family', h', houtcome⟩
    rwa [h.unique h']
  · intro houtcome
    exact ⟨family, h, houtcome⟩

/-- A rule leaves a valid dag valid, with the meaning it had. -/
theorem Matches.install_sound (h : Matches dag id policy rule fresh)
    (hvalid : dag.validate = some (.ok ())) :
    (dag.install id fresh).validate = some (.ok ()) ∧
      (dag.install id fresh).outcomeSets = dag.outcomeSets := by
  rw [validate_eq_ok_iff] at hvalid ⊢
  have hroot' : (dag.install id fresh).root = dag.root.map (redirectId id (dag.newId fresh)) := rfl
  cases hroot : dag.root with
  | none =>
    rw [hroot, Option.map_none] at hroot'
    refine ⟨fun root hsome => ?_, ?_⟩
    · rw [hroot'] at hsome
      cases hsome
    · rw [outcomeSets, outcomeSets, hroot', hroot]
      rfl
  | some root =>
    rw [hroot, Option.map_some] at hroot'
    have hrootValid := hvalid root hroot
    refine ⟨fun root' hsome => ?_, ?_⟩
    · rw [hroot'] at hsome
      cases hsome
      exact h.valid_install hrootValid
    · have hfold := folds_of_acc meaning (Folds.acc hrootValid)
      rw [outcomeSets_of_folds hroot hfold,
        outcomeSets_of_folds hroot' (h.meaning_install hrootValid hfold)]

end Fresh

end PlanDag

end Asupersync
