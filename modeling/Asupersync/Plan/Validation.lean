import Asupersync.Lib.GraphFold
import Asupersync.Plan.Dag
import Mathlib.Data.Finset.Card

/-!
# What validation accepts

A dag is read as a graph of kinds and children.  A node is valid when every node
below it is there, no join or race below it is empty, and no infinite path starts
at it.

`validate` always gives an answer (`validate_isSome`), and it accepts exactly the
dags without a root and those whose root is valid (`validate_eq_ok_iff`).
-/

namespace Asupersync

open Lib.GraphFold Finset List

/-- What a node is, apart from its children. -/
inductive PlanKind where
  | missing
  | leaf (label : String)
  | join
  | race
  | timeout (duration : Nat)
deriving DecidableEq, Repr

def PlanNode.kind : PlanNode → PlanKind
  | .leaf label => .leaf label
  | .join _ => .join
  | .race _ => .race
  | .timeout _ duration => .timeout duration

namespace PlanDag

variable {dag : PlanDag} {id : Nat} {node : PlanNode}

/-- The kinds and the children, with nothing below a missing node. -/
def graph (dag : PlanDag) : Lib.GraphFold.Graph Nat PlanKind := fun id =>
  match dag.node id with
  | none => (.missing, [])
  | some node => (node.kind, node.children)

theorem graph_of_node (h : dag.node id = some node) :
    dag.graph id = (node.kind, node.children) := by
  rw [graph, h]

theorem graph_of_missing (h : dag.node id = none) : dag.graph id = (.missing, []) := by
  rw [graph, h]

theorem child_iff (h : dag.node id = some node) (c : Nat) :
    Child dag.graph c id ↔ c ∈ node.children := by
  rw [Child, graph_of_node h]

theorem exists_node_of_child {c : Nat} (h : Child dag.graph c id) :
    ∃ node, dag.node id = some node ∧ c ∈ node.children := by
  cases hnode : dag.node id with
  | none =>
    rw [Child, graph_of_missing hnode] at h
    exact absurd h not_mem_nil
  | some node => exact ⟨node, rfl, (child_iff hnode c).mp h⟩

theorem node_eq_none_iff : dag.node id = none ↔ dag.nodes.length ≤ id := getElem?_eq_none_iff

theorem lt_length_of_node (h : dag.node id = some node) : id < dag.nodes.length :=
  (List.getElem?_eq_some_iff.mp h).1

/-- A node over these children passes the checks of `validate`, each child being checked. -/
def admits : PlanKind → List Bool → Bool
  | .missing, _ => false
  | .join, children => !children.isEmpty && children.all (· = true)
  | .race, children => !children.isEmpty && children.all (· = true)
  | .leaf _, children => children.all (· = true)
  | .timeout _, children => children.all (· = true)

/-- The node and everything below it pass the checks of `validate`. -/
def Valid (dag : PlanDag) (id : Nat) : Prop := Folds dag.graph admits id true

theorem admits_children {kind : PlanKind} {checks : List Bool} (h : admits kind checks = true) :
    ∀ check ∈ checks, check = true := by
  intro check hcheck
  cases kind with
  | missing => cases h
  | leaf label | timeout d => exact of_decide_eq_true (all_eq_true.mp h check hcheck)
  | join | race =>
    exact of_decide_eq_true (all_eq_true.mp (Bool.and_eq_true_iff.mp h).2 check hcheck)

theorem admits_kind_iff (node : PlanNode) (value : Nat → Bool)
    (hvalue : ∀ c ∈ node.children, value c = true) :
    admits node.kind (node.children.map value) = true ↔ node.isEmptyGroup = false := by
  have hall : (node.children.map value).all (· = true) = true := by
    rw [all_map, all_eq_true]
    exact fun c hc => decide_eq_true (hvalue c hc)
  cases node with
  | leaf label | timeout child d => exact ⟨fun _ => rfl, fun _ => hall⟩
  | join children | race children =>
    simp only [PlanNode.children] at hall
    simp only [admits, PlanNode.kind, PlanNode.children, PlanNode.isEmptyGroup, hall]
    simp

theorem Valid.intro (hnode : dag.node id = some node) (hgroup : node.isEmptyGroup = false)
    (hchildren : ∀ c ∈ node.children, Valid dag c) : Valid dag id := by
  have hfold := Folds.intro (graph_of_node hnode) (fun _ => true) hchildren
  rwa [(admits_kind_iff node _ fun _ _ => rfl).mpr hgroup] at hfold

theorem Valid.elim (h : Valid dag id) :
    ∃ node, dag.node id = some node ∧ node.isEmptyGroup = false ∧
      ∀ c ∈ node.children, Valid dag c := by
  cases hnode : dag.node id with
  | none =>
    obtain ⟨_, _, hmissing⟩ := Folds.elim (graph_of_missing hnode) h
    cases hmissing
  | some node =>
    obtain ⟨value, below, hadmits⟩ := Folds.elim (graph_of_node hnode) h
    have hvalue : ∀ c ∈ node.children, value c = true := fun c hc =>
      admits_children hadmits.symm (value c) (mem_map_of_mem hc)
    refine ⟨node, rfl, (admits_kind_iff node value hvalue).mp hadmits.symm, fun c hc => ?_⟩
    have hbelow := below c hc
    rwa [hvalue c hc] at hbelow

theorem Valid.of_reaches {c : Nat} (h : Valid dag id) (hreach : Reaches dag.graph id c) :
    Valid dag c := by
  induction hreach with
  | refl => exact h
  | tail _ hchild ih =>
    obtain ⟨node, hnode, -, hchildren⟩ := ih.elim
    exact hchildren _ ((child_iff hnode _).mp hchild)

section Walk

variable {visit : Nat → Marks → Option (Except PlanError Marks)} {visiting : Finset Nat}

/-- From done nodes that are valid, the walk accepts a valid node and leaves the current path
as it was, or rejects one that is not valid or has a node of the current path below it. -/
def Decides (dag : PlanDag) (visit : Nat → Marks → Option (Except PlanError Marks))
    (visiting : Finset Nat) (id : Nat) : Prop :=
  ∀ visited, (∀ x ∈ visited, Valid dag x) →
    (∃ visited', visit id ⟨visiting, visited⟩ = some (.ok ⟨visiting, visited'⟩) ∧
      Valid dag id ∧ ∀ x ∈ visited', Valid dag x) ∨
    (∃ error, visit id ⟨visiting, visited⟩ = some (.error error)) ∧
      (Valid dag id → ∃ v ∈ visiting, Reaches dag.graph id v)

theorem validateChildren_decides (id : Nat) {children : List Nat}
    (hvisit : ∀ c ∈ children, Decides dag visit visiting c) {visited : Finset Nat}
    (hdone : ∀ x ∈ visited, Valid dag x) :
    (∃ visited', validateChildren dag visit id children ⟨visiting, visited⟩ =
        some (.ok ⟨visiting, visited'⟩) ∧ (∀ c ∈ children, Valid dag c) ∧
          ∀ x ∈ visited', Valid dag x) ∨
      (∃ error, validateChildren dag visit id children ⟨visiting, visited⟩ = some (.error error)) ∧
      ∃ c ∈ children, Valid dag c → ∃ v ∈ visiting, Reaches dag.graph c v := by
  induction children generalizing visited with
  | nil => exact .inl ⟨visited, rfl, nofun, hdone⟩
  | cons child rest ih =>
    rw [validateChildren]
    split_ifs with hmissing
    · refine .inr ⟨⟨_, rfl⟩, child, mem_cons_self, fun hvalid => ?_⟩
      obtain ⟨node, hnode, -⟩ := hvalid.elim
      cases hmissing.symm.trans hnode
    · rcases hvisit child mem_cons_self visited hdone with
        ⟨between, h, hvalid, hbetween⟩ | ⟨⟨error, h⟩, hbad⟩
      · rw [h]
        rcases ih (fun c hc => hvisit c (mem_cons_of_mem child hc)) hbetween with
          ⟨visited', hrest, hchildren, hdone'⟩ | ⟨herror, c, hc, hbad⟩
        · exact .inl ⟨visited', hrest, forall_mem_cons.mpr ⟨hvalid, hchildren⟩, hdone'⟩
        · exact .inr ⟨herror, c, mem_cons_of_mem child hc, hbad⟩
      · rw [h]
        exact .inr ⟨⟨error, rfl⟩, child, mem_cons_self, hbad⟩

/-- Every level of the recursion puts one more node of the dag on the current path. -/
theorem validateFrom_decides (dag : PlanDag) (fuel : Nat) (id : Nat)
    (hvisiting : visiting ⊆ range dag.nodes.length)
    (hfuel : dag.nodes.length + 1 ≤ fuel + visiting.card) :
    Decides dag (validateFrom dag fuel) visiting id := by
  induction fuel generalizing visiting id with
  | zero =>
    have hcard := card_le_card hvisiting
    rw [card_range] at hcard
    omega
  | succ fuel ih =>
    intro visited hdone
    rw [validateFrom]
    split_ifs with hvisited hpath
    · exact .inl ⟨visited, rfl, hdone id hvisited, hdone⟩
    · exact .inr ⟨⟨_, rfl⟩, fun _ => ⟨id, hpath, Reaches.refl id⟩⟩
    cases hnode : dag.node id with
    | none =>
      refine .inr ⟨⟨_, rfl⟩, fun hvalid => ?_⟩
      obtain ⟨node, hnode', -⟩ := hvalid.elim
      cases hnode.symm.trans hnode'
    | some node =>
      dsimp only
      split_ifs with hgroup
      · refine .inr ⟨⟨_, rfl⟩, fun hvalid => ?_⟩
        obtain ⟨_, hnode', hgroup', -⟩ := hvalid.elim
        cases hnode.symm.trans hnode'
        cases hgroup.symm.trans hgroup'
      have hinside : insert id visiting ⊆ range dag.nodes.length :=
        insert_subset (Finset.mem_range.mpr (lt_length_of_node hnode)) hvisiting
      have hcard : (insert id visiting).card = visiting.card + 1 :=
        card_insert_of_notMem hpath
      have hvisit : ∀ c ∈ node.children,
          Decides dag (validateFrom dag fuel) (insert id visiting) c :=
        fun c _ => ih c hinside (by omega)
      rcases validateChildren_decides id hvisit hdone with ⟨visited', h, hchildren, hdone'⟩ |
        ⟨⟨error, h⟩, c, hc, hbad⟩
      · rw [h]
        have hvalid : Valid dag id := Valid.intro hnode (Bool.not_eq_true _ ▸ hgroup) hchildren
        refine .inl ⟨insert id visited', ?_, hvalid, fun x hx => ?_⟩
        · dsimp only
          rw [erase_insert hpath]
        · rcases mem_insert.mp hx with rfl | hx
          · exact hvalid
          · exact hdone' x hx
      · -- the child cannot reach its own parent, so what it reaches was on the path before
        rw [h]
        have hchild : Child dag.graph c id := (child_iff hnode c).mpr hc
        refine .inr ⟨⟨error, rfl⟩, fun hvalid => ?_⟩
        obtain ⟨v, hv, hreach⟩ := hbad (hvalid.of_reaches (Reaches.of_child hchild))
        rcases mem_insert.mp hv with rfl | hv
        · exact absurd hreach (not_reaches_of_child (Folds.acc hvalid) hchild)
        · exact ⟨v, hv, (Reaches.of_child hchild).trans hreach⟩

theorem validateFrom_root (dag : PlanDag) (root : Nat) :
    (∃ marks, validateFrom dag (dag.nodes.length + 1) root ⟨∅, ∅⟩ = some (.ok marks) ∧
      Valid dag root) ∨
    ∃ error, validateFrom dag (dag.nodes.length + 1) root ⟨∅, ∅⟩ = some (.error error) ∧
      ¬ Valid dag root := by
  rcases validateFrom_decides dag _ root (empty_subset _) (Nat.le_add_right _ _) ∅ nofun with
    ⟨visited', h, hvalid, -⟩ | ⟨⟨error, h⟩, hbad⟩
  · exact .inl ⟨_, h, hvalid⟩
  · refine .inr ⟨error, h, fun hvalid => ?_⟩
    obtain ⟨v, hv, -⟩ := hbad hvalid
    exact absurd hv (notMem_empty v)

end Walk

theorem validate_isSome (dag : PlanDag) : dag.validate.isSome := by
  cases hroot : dag.root with
  | none =>
    rw [validate, hroot]
    rfl
  | some root =>
    rcases validateFrom_root dag root with ⟨marks, h, -⟩ | ⟨error, h, -⟩
    · simp only [validate, hroot, h, Option.isSome_some]
    · simp only [validate, hroot, h, Option.isSome_some]

/-- Validation accepts a dag exactly when its root, if it has one, is valid. -/
theorem validate_eq_ok_iff (dag : PlanDag) :
    dag.validate = some (.ok ()) ↔ ∀ root, dag.root = some root → Valid dag root := by
  cases hroot : dag.root with
  | none =>
    rw [validate, hroot]
    exact iff_of_true rfl nofun
  | some root =>
    simp only [Option.some.injEq, forall_eq']
    rcases validateFrom_root dag root with ⟨marks, h, hvalid⟩ | ⟨error, h, hinvalid⟩
    · simp only [validate, hroot, h, hvalid]
    · simp [validate, hroot, h, hinvalid]

end PlanDag

end Asupersync
