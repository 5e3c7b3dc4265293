import Asupersync.Lib.Fuel
import Asupersync.Plan.Analysis
import Asupersync.Plan.Validation

/-!
# What the analysis computes, and when it returns

The result of the analysis at a node is the fold of the part below the node through
the rules of the analysis; the table of results only saves work.  The analysis visits
every node of the dag, so it returns exactly when the dag has no cycle at all, whether
the root reaches it or not (`analyze_returns`, `acyclic_of_analyze`).
-/

namespace Asupersync

open Lib.GraphFold Lib.Fuel List Option Returns

instance : Nonempty NodeAnalysis := ⟨NodeAnalysis.missing⟩

/-- How the analysis of a node comes from the analyses of its children. -/
def analysisRule : PlanKind → List NodeAnalysis → NodeAnalysis
  | .missing, _ => NodeAnalysis.missing
  | .leaf label, _ => NodeAnalysis.ofLeaf label
  | .join, children => NodeAnalysis.ofJoin children
  | .race, children => NodeAnalysis.ofRace children
  | .timeout duration, [child] => NodeAnalysis.ofTimeout duration child
  | .timeout _, _ => NodeAnalysis.missing

/-- No infinite path starts at any node. -/
def PlanDag.Acyclic (dag : PlanDag) : Prop := ∀ id, Acc (Child dag.graph) id

namespace PlanAnalyzer

variable {dag : PlanDag} {id fuel : Nat} {results results' : PlanAnalysis} {a : NodeAnalysis}

/-- The analysis of a node from which no infinite path starts. -/
noncomputable def analysisOf (dag : PlanDag) (id : Nat) : NodeAnalysis :=
  foldValue dag.graph analysisRule id

/-- Every entry of the table is the analysis of its node. -/
def Sound (dag : PlanDag) (results : PlanAnalysis) : Prop :=
  ∀ (i : Nat) (a : NodeAnalysis), results[i]? = some a → Acc (Child dag.graph) i ∧ a = analysisOf dag i

/-- No entry of the table is lost or changed. -/
def Grows (results results' : PlanAnalysis) : Prop :=
  ∀ (i : Nat) (a : NodeAnalysis), results[i]? = some a → results'[i]? = some a

theorem Grows.refl (results : PlanAnalysis) : Grows results results := fun _ _ h => h

theorem Grows.trans {between : PlanAnalysis} (h₁ : Grows results between)
    (h₂ : Grows between results') : Grows results results' := fun i a h => h₂ i a (h₁ i a h)

theorem Sound.empty (dag : PlanDag) : Sound dag ∅ := by
  intro i a h
  simp at h

theorem Sound.insert (h : Sound dag results) (hacc : Acc (Child dag.graph) id)
    (ha : a = analysisOf dag id) : Sound dag (results.insert id a) := by
  intro i b hb
  rw [Lib.OrderedMap.getElem?_insert] at hb
  split at hb
  · rename_i hi
    cases hb
    exact hi ▸ ⟨hacc, ha⟩
  · exact h i b hb

theorem Grows.insert (hnew : results[id]? = none)
    (h : Grows results results') : Grows results (results'.insert id a) := by
  intro i b hb
  rw [Lib.OrderedMap.getElem?_insert, if_neg]
  · exact h i b hb
  · rintro rfl
    rw [hnew] at hb
    cases hb

/-- A recursive call of the analysis gives the analysis of the node it is made for. -/
def Correct (dag : PlanDag)
    (analyze : Nat → PlanAnalysis → Option (NodeAnalysis × PlanAnalysis)) : Prop :=
  ∀ id a results results', analyze id results = some (a, results') → Sound dag results →
    Acc (Child dag.graph) id ∧ a = analysisOf dag id ∧ Sound dag results' ∧ Grows results results'

theorem analyzeChildren_correct
    {analyze : Nat → PlanAnalysis → Option (NodeAnalysis × PlanAnalysis)}
    (hanalyze : Correct dag analyze) {children : List Nat} {analyses : List NodeAnalysis}
    (h : analyzeChildren analyze children results = some (analyses, results'))
    (hsound : Sound dag results) :
    (∀ c ∈ children, Acc (Child dag.graph) c) ∧ analyses = children.map (analysisOf dag) ∧
      Sound dag results' ∧ Grows results results' := by
  -- the loop appends to the analyses of the children it has done
  have hloop : ∀ {step : List NodeAnalysis × PlanAnalysis → Nat → Option _},
      (∀ done results child, step (done, results) child =
        (analyze child results).bind fun out => some (done ++ [out.1], out.2)) →
      ∀ (done : List NodeAnalysis) (results : PlanAnalysis), Sound dag results →
      children.foldlM step (done, results) = some (analyses, results') →
      (∀ c ∈ children, Acc (Child dag.graph) c) ∧
        analyses = done ++ children.map (analysisOf dag) ∧
        Sound dag results' ∧ Grows results results' := by
    clear h hsound
    intro step hstep
    induction children with
    | nil =>
      intro done results hsound h
      cases h
      exact ⟨fun c hc => absurd hc not_mem_nil, by simp, hsound, Grows.refl _⟩
    | cons child rest ih =>
      intro done results hsound h
      rw [foldlM_cons, hstep] at h
      simp only [bind_eq_bind, bind_eq_some_iff] at h
      obtain ⟨⟨done', between⟩, ⟨⟨a, between'⟩, hchild, hpair⟩, hrest⟩ := h
      cases hpair
      obtain ⟨hacc, rfl, hbetween, hgrows⟩ := hanalyze child a results between' hchild hsound
      obtain ⟨haccs, hanalyses, hfinal, hgrows'⟩ := ih _ between' hbetween hrest
      refine ⟨forall_mem_cons.mpr ⟨hacc, haccs⟩, ?_, hfinal, hgrows.trans hgrows'⟩
      rw [hanalyses, map_cons, append_assoc]
      rfl
  exact hloop (fun _ _ _ => rfl) [] results hsound h

theorem analysisOf_eq {node : PlanNode} (hnode : dag.node id = some node)
    (hchildren : ∀ c ∈ node.children, Acc (Child dag.graph) c) :
    Acc (Child dag.graph) id ∧
      analysisOf dag id = analysisRule node.kind (node.children.map (analysisOf dag)) := by
  have hacc : Acc (Child dag.graph) id :=
    Acc.intro id fun c hc => hchildren c ((PlanDag.child_iff hnode c).mp hc)
  exact ⟨hacc, foldValue_of_acc analysisRule (PlanDag.graph_of_node hnode) hacc⟩

theorem analysisOf_missing (hnode : dag.node id = none) :
    Acc (Child dag.graph) id ∧ analysisOf dag id = NodeAnalysis.missing := by
  have hacc : Acc (Child dag.graph) id := by
    refine Acc.intro id fun c hc => ?_
    rw [Child, PlanDag.graph_of_missing hnode] at hc
    exact absurd hc not_mem_nil
  exact ⟨hacc, foldValue_of_acc analysisRule (PlanDag.graph_of_missing hnode) hacc⟩

theorem analyzeNode_of_some {existing : NodeAnalysis} (h : results[id]? = some existing) :
    analyzeNode dag (fuel + 1) id results = some (existing, results) := by
  rw [analyzeNode, h]

theorem analyzeNode_of_none (h : results[id]? = none) :
    analyzeNode dag (fuel + 1) id results =
      (analyzeFresh dag (analyzeNode dag fuel) id results >>= fun (analysis, results) =>
        some (analysis, results.insert id analysis)) := by
  rw [analyzeNode, h]

theorem analyzeFresh_correct {analyze : Nat → PlanAnalysis → Option (NodeAnalysis × PlanAnalysis)}
    (ih : Correct dag analyze)
    (h : analyzeFresh dag analyze id results = some (a, results')) (hsound : Sound dag results) :
    Acc (Child dag.graph) id ∧ a = analysisOf dag id ∧ Sound dag results' ∧
      Grows results results' := by
  rw [analyzeFresh] at h
  split at h
  · rename_i hnode
    cases h
    obtain ⟨hacc, hvalue⟩ := analysisOf_missing hnode
    exact ⟨hacc, hvalue.symm, hsound, Grows.refl _⟩
  · rename_i label hnode
    cases h
    obtain ⟨hacc, hvalue⟩ := analysisOf_eq hnode (fun c hc => absurd hc not_mem_nil)
    exact ⟨hacc, hvalue.symm, hsound, Grows.refl _⟩
  case h_3 children hnode | h_4 children hnode =>
    simp only [bind_eq_bind, bind_eq_some_iff] at h
    obtain ⟨⟨analyses, between⟩, hchildren, hresult⟩ := h
    cases hresult
    obtain ⟨haccs, rfl, hbetween, hgrows⟩ := analyzeChildren_correct ih hchildren hsound
    obtain ⟨hacc, hvalue⟩ := analysisOf_eq hnode haccs
    exact ⟨hacc, hvalue.symm, hbetween, hgrows⟩
  · rename_i child duration hnode
    simp only [bind_eq_bind, bind_eq_some_iff] at h
    obtain ⟨⟨analysis, between⟩, hchild, hresult⟩ := h
    cases hresult
    obtain ⟨haccChild, rfl, hbetween, hgrows⟩ := ih _ _ _ _ hchild hsound
    obtain ⟨hacc, hvalue⟩ := analysisOf_eq hnode (fun c hc => by
      rw [mem_singleton.mp hc]
      exact haccChild)
    exact ⟨hacc, hvalue.symm, hbetween, hgrows⟩

theorem analyzeNode_correct (dag : PlanDag) (fuel : Nat) : Correct dag (analyzeNode dag fuel) := by
  induction fuel with
  | zero =>
    intro id a results results' h
    cases h
  | succ fuel ih =>
    intro id a results results' h hsound
    cases hentry : results[id]? with
    | some existing =>
      rw [analyzeNode_of_some hentry] at h
      cases h
      obtain ⟨hacc, hvalue⟩ := hsound id a hentry
      exact ⟨hacc, hvalue, hsound, Grows.refl _⟩
    | none =>
      rw [analyzeNode_of_none hentry] at h
      simp only [bind_eq_bind, bind_eq_some_iff] at h
      obtain ⟨⟨analysis, between⟩, hfresh, hresult⟩ := h
      cases hresult
      obtain ⟨hacc, hvalue, hbetween, hgrows⟩ := analyzeFresh_correct ih hfresh hsound
      exact ⟨hacc, hvalue, hbetween.insert hacc hvalue, hgrows.insert hentry⟩

theorem analyzeNode_entry
    (h : analyzeNode dag fuel id results = some (a, results')) : results'[id]? = some a := by
  cases fuel with
  | zero => cases h
  | succ fuel =>
    cases hentry : results[id]? with
    | some existing =>
      rw [analyzeNode_of_some hentry] at h
      cases h
      exact hentry
    | none =>
      rw [analyzeNode_of_none hentry] at h
      simp only [bind_eq_bind, bind_eq_some_iff] at h
      obtain ⟨⟨analysis, between⟩, -, hresult⟩ := h
      cases hresult
      rw [Lib.OrderedMap.getElem?_insert, if_pos rfl]

/-- The loop over the nodes of the dag leaves an entry for each of them. -/
theorem analyzeLoop_correct {ids : List Nat} (h : ids.foldlM (fun results idx =>
      if Std.ExtTreeMap.contains results idx then some results
      else (analyzeNode dag fuel idx results).map (·.2)) results = some results')
    (hsound : Sound dag results) :
    Sound dag results' ∧ Grows results results' ∧ ∀ i ∈ ids, (results'[i]?).isSome := by
  induction ids generalizing results with
  | nil =>
    cases h
    exact ⟨hsound, Grows.refl _, fun i hi => absurd hi not_mem_nil⟩
  | cons idx rest ih =>
    rw [foldlM_cons, bind_eq_bind, bind_eq_some_iff] at h
    obtain ⟨between, hturn, hrest⟩ := h
    have hstep : Sound dag between ∧ Grows results between ∧ (between[idx]?).isSome := by
      split at hturn
      · cases hturn
        refine ⟨hsound, Grows.refl _, ?_⟩
        rwa [Std.ExtTreeMap.isSome_getElem?_eq_contains]
      · obtain ⟨⟨a, between'⟩, hnode, hbetween⟩ := map_eq_some_iff.mp hturn
        cases hbetween
        obtain ⟨-, -, hbetween, hgrows⟩ := analyzeNode_correct dag fuel _ _ _ _ hnode hsound
        exact ⟨hbetween, hgrows, isSome_iff_exists.mpr ⟨a, analyzeNode_entry hnode⟩⟩
    obtain ⟨hbetween, hgrows, hentry⟩ := hstep
    obtain ⟨hfinal, hgrows', hentries⟩ := ih hrest hbetween
    refine ⟨hfinal, hgrows.trans hgrows', forall_mem_cons.mpr ⟨?_, hentries⟩⟩
    obtain ⟨a, ha⟩ := isSome_iff_exists.mp hentry
    exact isSome_iff_exists.mpr ⟨a, hgrows' idx a ha⟩

section

variable (h : analyze fuel dag = some results)

include h

theorem analyze_correct : Sound dag results ∧ ∀ i < dag.nodes.length, (results[i]?).isSome := by
  rw [analyze, bind_eq_bind, bind_eq_some_iff] at h
  obtain ⟨between, hroot, hloop⟩ := h
  have hbetween : Sound dag between := by
    rw [analyzeRoot] at hroot
    split at hroot
    · obtain ⟨⟨a, between'⟩, hnode, hbetween⟩ := map_eq_some_iff.mp hroot
      cases hbetween
      exact (analyzeNode_correct dag fuel _ _ _ _ hnode (Sound.empty dag)).2.2.1
    · cases hroot
      exact Sound.empty dag
  obtain ⟨hsound, -, hentries⟩ := analyzeLoop_correct hloop hbetween
  exact ⟨hsound, fun i hi => hentries i (mem_range.mpr hi)⟩

theorem getElem?_of_analyze (hid : id < dag.nodes.length) :
    results[id]? = some (analysisOf dag id) := by
  obtain ⟨hsound, hentries⟩ := analyze_correct h
  obtain ⟨a, ha⟩ := isSome_iff_exists.mp (hentries id hid)
  rw [ha, (hsound id a ha).2]

/-- An analysis that returns has met no cycle. -/
theorem acyclic_of_analyze : dag.Acyclic := by
  obtain ⟨hsound, hentries⟩ := analyze_correct h
  intro id
  cases hnode : dag.node id with
  | none => exact (analysisOf_missing hnode).1
  | some node =>
    obtain ⟨a, ha⟩ := isSome_iff_exists.mp (hentries id (PlanDag.lt_length_of_node hnode))
    exact (hsound id a ha).1

end

section Returns

theorem analyzeNode_returns (h : Acc (Child dag.graph) id) (results : PlanAnalysis) :
    Returns (fun fuel => analyzeNode dag fuel id results) := by
  induction h generalizing results with
  | intro id _ ih =>
    have hchildren : ∀ node, dag.node id = some node → ∀ c ∈ node.children, ∀ results,
        Returns (fun fuel => analyzeNode dag fuel c results) :=
      fun node hnode c hc => ih c ((PlanDag.child_iff hnode c).mpr hc)
    have hfresh : Returns (fun fuel => analyzeFresh dag (analyzeNode dag fuel) id results) := by
      cases hnode : dag.node id with
      | none =>
        simp only [analyzeFresh, hnode]
        exact returns_some _
      | some node =>
        cases node with
        | leaf label =>
          simp only [analyzeFresh, hnode]
          exact returns_some _
        | join children | race children =>
          simp only [analyzeFresh, hnode]
          refine bind (foldlM (fun c hc state => ?_) ([], results)) fun _ => returns_some _
          exact bind (hchildren _ hnode c hc state.2) fun _ => returns_some _
        | timeout child duration =>
          simp only [analyzeFresh, hnode]
          exact bind (hchildren _ hnode child mem_cons_self results) fun _ => returns_some _
    cases hentry : results[id]? with
    | some existing =>
      exact of_succ (fun _ => analyzeNode_of_some hentry) (returns_some _)
    | none =>
      exact of_succ (fun _ => analyzeNode_of_none hentry) (bind hfresh fun _ => returns_some _)

/-- The analysis of a dag without a cycle returns. -/
theorem analyze_returns (h : dag.Acyclic) : Returns (fun fuel => analyze fuel dag) := by
  have hsecond : ∀ id results,
      Returns (fun fuel => (analyzeNode dag fuel id results).map (·.2)) := by
    intro id results
    refine (bind (analyzeNode_returns (h id) results)
      fun result => returns_some result.2).imp fun _ hsettles => ?_
    exact hsettles.congr fun fuel => map_eq_bind
  have hroot : Returns (fun fuel => analyzeRoot fuel dag) := by
    simp only [analyzeRoot]
    cases dag.root with
    | none => exact returns_some _
    | some root => exact hsecond root ∅
  refine bind hroot fun results => foldlM (fun idx _ results => ?_) results
  split
  · exact returns_some _
  · exact hsecond idx results

end Returns

end PlanAnalyzer

end Asupersync
