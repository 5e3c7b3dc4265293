import Asupersync.Obligation.LeakCheck

/-!
# Soundness of the static leak checker

An execution path of a body takes one arm at each branch; what is left is a
straight line of reserves, commits and aborts, and a variable is held when its last
step was a reserve.  The abstract state of the checker approximates every path from
both sides: what a path holds may be held, and what is definitely held is held on
every path.  Diagnostics and peaks only grow while the checker walks a body, so what
one arm reports is still there at the end.

The approximation is exact for one variable at a time: what may be held is held on
some path (`exists_execPath`).  So a resolve that is not reported acts on a held
variable on some path to it, but not on all of them.
-/

namespace Asupersync

open Std Lib List ExtTreeMap

/-- A step of an execution path. -/
inductive ExecStep where
  | reserve (var : ObligationVar) (kind : ObligationKind)
  | commit (var : ObligationVar)
  | abort (var : ObligationVar)
deriving DecidableEq, Repr

/-- The execution paths of a list of instructions.  A branch without arms has nothing
to choose and is passed over. -/
inductive ExecPath : List Instruction → List ExecStep → Prop
  | nil : ExecPath [] []
  | reserve {rest : List Instruction} {path : List ExecStep} (var : ObligationVar)
      (kind : ObligationKind) (tail : ExecPath rest path) :
      ExecPath (.reserve var kind :: rest) (.reserve var kind :: path)
  | commit {rest : List Instruction} {path : List ExecStep} (var : ObligationVar)
      (tail : ExecPath rest path) :
      ExecPath (.commit var :: rest) (.commit var :: path)
  | abort {rest : List Instruction} {path : List ExecStep} (var : ObligationVar)
      (tail : ExecPath rest path) :
      ExecPath (.abort var :: rest) (.abort var :: path)
  | skip {rest : List Instruction} {path : List ExecStep} (tail : ExecPath rest path) :
      ExecPath (.branch [] :: rest) path
  | branch {rest arm : List Instruction} {arms : List (List Instruction)}
      {taken path : List ExecStep} (chosen : arm ∈ arms) (inside : ExecPath arm taken)
      (tail : ExecPath rest path) :
      ExecPath (.branch arms :: rest) (taken ++ path)

/-- The variables that hold an obligation after one more step. -/
def heldStep (held : Finset ObligationVar) : ExecStep → Finset ObligationVar
  | .reserve var _ => insert var held
  | .commit var => held.erase var
  | .abort var => held.erase var

/-- The variables that hold an obligation after a path. -/
def heldAfter (held : Finset ObligationVar) (path : List ExecStep) : Finset ObligationVar :=
  path.foldl heldStep held

@[simp]
theorem heldAfter_append (held : Finset ObligationVar) (path₁ path₂ : List ExecStep) :
    heldAfter held (path₁ ++ path₂) = heldAfter (heldAfter held path₁) path₂ :=
  foldl_append

namespace LeakChecker

/-! ## Lookups and joins -/

theorem lookup_eq (state : VarStates) (v : ObligationVar) :
    lookup state v = state[v]?.getD .empty := by
  exact OrderedMap.getD_eq state v .empty

theorem lookup_insert (state : VarStates) (v w : ObligationVar) (s : VarState) :
    lookup (state.insert v s) w = if v = w then s else lookup state w := by
  rw [lookup_eq, lookup_eq, OrderedMap.getElem?_insert]
  split <;> rfl

variable {state : VarStates} {v : ObligationVar}

/-- A variable that may hold an obligation is a key of the state. -/
theorem exists_of_isLeak (h : (lookup state v).isLeak = true) :
    ∃ s, state[v]? = some s ∧ s.isLeak = true := by
  rw [lookup_eq] at h
  cases hs : state[v]? with
  | none => cases hs ▸ h
  | some s => exact ⟨s, rfl, by rwa [hs] at h⟩

theorem mem_allVars_from (states : List VarStates) (vars : ExtTreeSet ObligationVar)
    (v : ObligationVar) :
    v ∈ states.foldl (fun vars state => state.foldl (fun vars var _ => vars.insert var) vars) vars ↔
      v ∈ vars ∨ ∃ state ∈ states, ∃ s, state[v]? = some s := by
  induction states generalizing vars with
  | nil => simp
  | cons state states ih =>
    rw [foldl_cons, ih, foldl_eq_foldl_toList, OrderedMap.mem_foldl_insert_iff]
    simp only [mem_toList_iff_getElem?_eq_some, exists_mem_cons_iff, or_assoc]

/-- The join of the arms is taken variable by variable; a variable no arm has met is
empty in every arm and in the join. -/
theorem lookup_joinStates (first : VarStates) (rest : List VarStates) (v : ObligationVar) :
    lookup (joinStates (first :: rest)) v =
      rest.foldl (fun joined state => joined.join (lookup state v)) (lookup first v) := by
  cases rest with
  | nil => rfl
  | cons second rest =>
    rw [lookup_eq]
    simp only [joinStates]
    rw [ExtTreeSet.foldl_eq_foldl_toList, OrderedMap.getElem?_foldl_insert]
    split
    · rfl
    rename_i hnone
    rw [ExtTreeSet.mem_toList, allVars, mem_allVars_from] at hnone
    have hempty : ∀ state ∈ first :: second :: rest, lookup state v = .empty := by
      intro state hstate
      rw [lookup_eq]
      cases hs : state[v]? with
      | none => rfl
      | some s => exact (hnone (.inr ⟨state, hstate, s, hs⟩)).elim
    rw [hempty first mem_cons_self]
    refine (foldlRecOn (motive := (· = VarState.empty)) (second :: rest) _ rfl ?_).symm
    intro joined hjoined state hstate
    rw [hjoined, hempty state (mem_cons_of_mem _ hstate)]
    rfl

/-! ## The abstract state approximates a path -/

/-- What the path holds may be held, and what is definitely held is held. -/
structure Approximates (state : VarStates) (held : Finset ObligationVar) : Prop where
  leak : ∀ v ∈ held, (lookup state v).isLeak = true
  held : ∀ v, (lookup state v).isHeld = true → v ∈ held

theorem approximates_empty : Approximates ∅ ∅ := by
  constructor
  · intro v hv
    exact absurd hv (Finset.notMem_empty v)
  · intro v hv
    cases hv

variable {held : Finset ObligationVar} {c₁ c₂ c₃ : LeakChecker}

theorem Approximates.reserve (h : Approximates state held) (v : ObligationVar)
    (kind : ObligationKind) :
    Approximates (state.insert v (.held kind)) (insert v held) := by
  constructor
  · intro w hw
    rw [lookup_insert]
    split
    · rfl
    · rename_i hne
      exact h.leak w ((Finset.mem_insert.mp hw).resolve_left (Ne.symm hne))
  · intro w hw
    rw [lookup_insert] at hw
    split at hw
    · rename_i heq
      exact heq ▸ Finset.mem_insert_self v held
    · exact Finset.mem_insert_of_mem (h.held w hw)

theorem Approximates.resolve (h : Approximates state held) (v : ObligationVar) :
    Approximates (state.insert v .resolved) (held.erase v) := by
  constructor
  · intro w hw
    obtain ⟨hne, hmem⟩ := Finset.mem_erase.mp hw
    rw [lookup_insert, if_neg (Ne.symm hne)]
    exact h.leak w hmem
  · intro w hw
    rw [lookup_insert] at hw
    split at hw
    · cases hw
    · rename_i hne
      exact Finset.mem_erase.mpr ⟨Ne.symm hne, h.held w hw⟩

/-- Resolving a variable that holds nothing changes nothing on the path. -/
theorem Approximates.resolveUnheld (h : Approximates state held)
    (hv : (lookup state v).isLeak = false) : Approximates state (held.erase v) := by
  have hnot : v ∉ held := by
    intro hmem
    rw [h.leak v hmem] at hv
    cases hv
  rwa [Finset.erase_eq_of_notMem hnot]

theorem isLeak_foldl_join (states : List VarStates) (v : ObligationVar) (s : VarState) :
    (states.foldl (fun joined state => VarState.join joined (lookup state v)) s).isLeak = true ↔
      s.isLeak = true ∨ ∃ state ∈ states, (lookup state v).isLeak = true := by
  induction states generalizing s with
  | nil => simp
  | cons state states ih =>
    rw [foldl_cons, ih]
    simp only [VarState.isLeak_join, Bool.or_eq_true, exists_mem_cons_iff, or_assoc]

theorem isHeld_of_foldl_join (states : List VarStates) (v : ObligationVar) (s : VarState)
    (h : (states.foldl (fun joined state => VarState.join joined (lookup state v)) s).isHeld =
      true) :
    s.isHeld = true ∧ ∀ state ∈ states, (lookup state v).isHeld = true := by
  induction states generalizing s with
  | nil => exact ⟨h, by simp⟩
  | cons state states ih =>
    obtain ⟨hjoin, hrest⟩ := ih _ h
    obtain ⟨hs, hstate⟩ := VarState.isHeld_of_join hjoin
    exact ⟨hs, forall_mem_cons.mpr ⟨hstate, hrest⟩⟩

/-- The join of the arms approximates the path through any one of them. -/
theorem Approximates.join {states : List VarStates} (hmem : state ∈ states)
    (h : Approximates state held) :
    Approximates (joinStates states) held := by
  cases states with
  | nil => cases hmem
  | cons first rest =>
    constructor
    · intro v hv
      rw [lookup_joinStates, isLeak_foldl_join]
      rcases mem_cons.mp hmem with rfl | hrest
      · exact .inl (h.leak v hv)
      · exact .inr ⟨state, hrest, h.leak v hv⟩
    · intro v hv
      rw [lookup_joinStates] at hv
      obtain ⟨hfirst, hall⟩ := isHeld_of_foldl_join rest v _ hv
      rcases mem_cons.mp hmem with rfl | hrest
      · exact h.held v hfirst
      · exact h.held v (hall state hrest)

/-! ## The budget counts every variable that may be held -/

theorem outstanding_add (n : BudgetCount) (s : VarState) :
    (n.add s).outstanding = n.outstanding + if s.isLeak then 1 else 0 := by
  cases s <;> rfl

theorem outstanding_foldl_add (l : List (ObligationVar × VarState)) (n : BudgetCount) :
    (l.foldl (fun n entry => n.add entry.2) n).outstanding =
      n.outstanding + (l.filter (fun entry => entry.2.isLeak)).length := by
  induction l generalizing n with
  | nil => simp
  | cons entry l ih =>
    rw [foldl_cons, ih, outstanding_add, filter_cons]
    split
    · simp
      omega
    · simp

theorem Approximates.card_le (h : Approximates state held) :
    held.card ≤ (budgetCount state).outstanding := by
  have hsub : held ⊆
      ((state.toList.filter (fun entry => entry.2.isLeak)).map Prod.fst).toFinset := by
    intro v hv
    obtain ⟨s, hs, hleak⟩ := exists_of_isLeak (h.leak v hv)
    refine mem_toFinset.mpr (mem_map.mpr ⟨(v, s), ?_, rfl⟩)
    exact mem_filter.mpr ⟨mem_toList_iff_getElem?_eq_some.mpr hs, hleak⟩
  calc held.card
      ≤ _ := Finset.card_le_card hsub
    _ ≤ _ := toFinset_card_le _
    _ = _ := by
      rw [length_map, budgetCount, foldl_eq_foldl_toList, outstanding_foldl_add]
      simp

/-! ## What a walk keeps -/

/-- The walk from `c` to `c'` drops no diagnostic and lowers no peak, and what it
reports is not about the exit of the scope. -/
structure Grows (c c' : LeakChecker) : Prop where
  kept : ∀ d ∈ c.diagnostics, d ∈ c'.diagnostics
  peak : c.peakOutstanding ≤ c'.peakOutstanding
  inside : ∀ d ∈ c'.diagnostics, d ∈ c.diagnostics ∨ d.code ≠ .leakExitDefinite

theorem Grows.refl (c : LeakChecker) : Grows c c :=
  ⟨fun _ hd => hd, le_rfl, fun _ hd => .inl hd⟩

theorem Grows.trans (h₁ : Grows c₁ c₂) (h₂ : Grows c₂ c₃) : Grows c₁ c₃ := by
  refine ⟨fun d hd => h₂.kept d (h₁.kept d hd), h₁.peak.trans h₂.peak, ?_⟩
  intro d hd
  rcases h₂.inside d hd with hmid | hcode
  · exact h₁.inside d hmid
  · exact .inr hcode

variable {c c' : LeakChecker} {code : DiagnosticCode}

theorem Grows.withState (h : Grows c c') (state : VarStates) : Grows c { c' with state := state } :=
  ⟨h.kept, h.peak, h.inside⟩

theorem Grows.fromState (h : Grows { c with state := state } c') : Grows c c' :=
  ⟨h.kept, h.peak, h.inside⟩

theorem grows_pushDiagnostic (c : LeakChecker)
    (hcode : code ≠ .leakExitDefinite) (kind : DiagnosticKind) (var : ObligationVar)
    (obligationKind : Option ObligationKind) (location : DiagnosticLocation) (message : String) :
    Grows c (c.pushDiagnostic code kind var obligationKind location message) := by
  refine ⟨fun d hd => mem_append_left _ hd, le_rfl, ?_⟩
  intro d hd
  rcases mem_append.mp hd with hold | hnew
  · exact .inl hold
  · rw [mem_singleton.mp hnew]
    exact .inr hcode

theorem grows_recordBudgetSnapshot (c : LeakChecker) : Grows c c.recordBudgetSnapshot :=
  ⟨fun _ hd => hd, le_max_left _ _, fun _ hd => .inl hd⟩

theorem grows_checkReserve (c : LeakChecker) (var : ObligationVar) (kind : ObligationKind)
    (location : DiagnosticLocation) : Grows c (c.checkReserve var kind location) := by
  apply Grows.withState
  split
  · split
    · exact grows_pushDiagnostic c (by decide) _ _ _ _ _
    · exact Grows.refl c
  · exact Grows.refl c

/-- A resolve consumes what the variable may hold, or reports that it holds nothing. -/
theorem checkResolve_cases (c : LeakChecker) (var : ObligationVar) (action : String)
    (location : DiagnosticLocation) :
    ((lookup c.state var).isLeak = true ∧ c.checkResolve var action location =
        { c with state := c.state.insert var .resolved }) ∨
      (lookup c.state var).isLeak = false ∧ ∃ code kind message, code ≠ .leakExitDefinite ∧
        c.checkResolve var action location =
          c.pushDiagnostic code kind var none location message := by
  rw [lookup_eq]
  unfold checkResolve
  split
  iterate 3 next hs => exact .inl ⟨by rw [hs]; rfl, rfl⟩
  all_goals
    rename_i hs
    exact .inr ⟨by rw [hs]; rfl, _, _, _, by decide, rfl⟩

theorem grows_checkResolve (c : LeakChecker) (var : ObligationVar) (action : String)
    (location : DiagnosticLocation) : Grows c (c.checkResolve var action location) := by
  rcases checkResolve_cases c var action location with ⟨-, heq⟩ | ⟨-, _, _, _, hcode, heq⟩
  · rw [heq]
    exact (Grows.refl c).withState _
  · rw [heq]
    exact grows_pushDiagnostic c hcode _ _ _ _ _

mutual

theorem grows_checkInstruction (c : LeakChecker) (instr : Instruction)
    (instructionPath branchArms : List Nat) :
    Grows c (c.checkInstruction instr instructionPath branchArms) := by
  cases instr with
  | reserve var kind =>
    exact grows_checkReserve c var kind _
  | commit var | abort var =>
    exact grows_checkResolve c var _ _
  | branch arms =>
    simp only [checkInstruction]
    split
    · exact Grows.refl c
    · exact (grows_checkArms c c.state arms 0 instructionPath branchArms).withState _

theorem grows_checkInstructions (c : LeakChecker) (instructions : List Instruction)
    (index : Nat) (instructionPrefix branchArms : List Nat) :
    Grows c (c.checkInstructions instructions index instructionPrefix branchArms) := by
  cases instructions with
  | nil =>
    exact Grows.refl c
  | cons instr rest =>
    exact ((grows_checkInstruction c instr (instructionPrefix ++ [index]) branchArms).trans
      (grows_recordBudgetSnapshot _)).trans
      (grows_checkInstructions _ rest (index + 1) instructionPrefix branchArms)

theorem grows_checkArms (c : LeakChecker) (entryState : VarStates)
    (arms : List (List Instruction)) (armIndex : Nat) (instructionPath branchArms : List Nat) :
    Grows c (c.checkArms entryState arms armIndex instructionPath branchArms).1 := by
  cases arms with
  | nil =>
    exact Grows.refl c
  | cons arm rest =>
    exact (grows_checkInstructions { c with state := entryState } arm 0 instructionPath
      (branchArms ++ [armIndex])).fromState.trans
      (grows_checkArms _ entryState rest (armIndex + 1) instructionPath branchArms)

end

section Arms

variable (c : LeakChecker) (entryState : VarStates) {arms : List (List Instruction)}
  (armIndex : Nat) (instructionPath branchArms : List Nat)

/-- The walk over an arm, from the entry state, is part of the walk over the arms. -/
theorem checkArms_arm {arm : List Instruction} (hmem : arm ∈ arms) :
    ∃ (c₀ : LeakChecker) (branchArms' : List Nat), c₀.state = entryState ∧ Grows c c₀ ∧
      (c₀.checkInstructions arm 0 instructionPath branchArms').state ∈
        (c.checkArms entryState arms armIndex instructionPath branchArms).2 ∧
      Grows (c₀.checkInstructions arm 0 instructionPath branchArms')
        (c.checkArms entryState arms armIndex instructionPath branchArms).1 := by
  induction arms generalizing c armIndex with
  | nil => cases hmem
  | cons first rest ih =>
    rcases mem_cons.mp hmem with rfl | hrest
    · exact ⟨{ c with state := entryState }, _, rfl, (Grows.refl c).withState _, mem_cons_self,
        grows_checkArms ..⟩
    · obtain ⟨c₀, branchArms', hentry, hgrows, hin, hafter⟩ := ih _ (armIndex + 1) hrest
      exact ⟨c₀, branchArms', hentry, (grows_checkInstructions ..).fromState.trans hgrows,
        mem_cons_of_mem _ hin, hafter⟩

theorem checkArms_state {state : VarStates}
    (hmem : state ∈ (c.checkArms entryState arms armIndex instructionPath branchArms).2) :
    ∃ arm ∈ arms, ∃ (c₀ : LeakChecker) (branchArms' : List Nat), c₀.state = entryState ∧
      state = (c₀.checkInstructions arm 0 instructionPath branchArms').state := by
  induction arms generalizing c armIndex with
  | nil => cases hmem
  | cons first rest ih =>
    rcases mem_cons.mp hmem with rfl | hrest
    · exact ⟨first, mem_cons_self, { c with state := entryState }, _, rfl, rfl⟩
    · obtain ⟨arm, harm, hwalk⟩ := ih _ (armIndex + 1) hrest
      exact ⟨arm, mem_cons_of_mem _ harm, hwalk⟩

end Arms

/-! ## What a path is covered by -/

/-- The checker has reported every overwrite of the path that starts with `held`, and
its peak is at least what the path holds at any point. -/
structure Covers (c : LeakChecker) (held : Finset ObligationVar) (path : List ExecStep) :
    Prop where
  overwrite : ∀ before var kind after,
    path = before ++ .reserve var kind :: after → var ∈ heldAfter held before →
      ∃ d ∈ c.diagnostics, d.var = var ∧ d.code = .overwriteActive
  peak : ∀ before after, path = before ++ after →
    (heldAfter held before).card ≤ c.peakOutstanding

theorem Covers.nil (hpeak : held.card ≤ c.peakOutstanding) : Covers c held [] := by
  constructor
  · intro before var kind after hsplit
    simp at hsplit
  · intro before after hsplit
    obtain ⟨rfl, -⟩ := append_eq_nil_iff.mp hsplit.symm
    exact hpeak

variable {path : List ExecStep} {rest : List Instruction} {taken : List ExecStep}
  {instructions : List Instruction} {var : ObligationVar}

theorem Covers.mono (h : Covers c held path) (hgrows : Grows c c') : Covers c' held path := by
  constructor
  · intro before var kind after hsplit hheld
    obtain ⟨d, hd, hvar⟩ := h.overwrite before var kind after hsplit hheld
    exact ⟨d, hgrows.kept d hd, hvar⟩
  · intro before after hsplit
    exact (h.peak before after hsplit).trans hgrows.peak

theorem Covers.append {path₁ path₂ : List ExecStep} (h₁ : Covers c held path₁)
    (h₂ : Covers c (heldAfter held path₁) path₂) : Covers c held (path₁ ++ path₂) := by
  constructor
  · intro before var kind after hsplit hheld
    rcases append_eq_append_iff.mp hsplit with ⟨more, rfl, hright⟩ | ⟨more, hleft, hright⟩
    · rw [heldAfter_append] at hheld
      exact h₂.overwrite more var kind after hright hheld
    · cases more with
      | nil =>
        rw [append_nil] at hleft
        subst hleft
        exact h₂.overwrite [] var kind after hright.symm hheld
      | cons step more =>
        obtain ⟨rfl, -⟩ := hright
        exact h₁.overwrite before var kind more hleft hheld
  · intro before after hsplit
    rcases append_eq_append_iff.mp hsplit with ⟨more, rfl, hright⟩ | ⟨more, hleft, -⟩
    · rw [heldAfter_append]
      exact h₂.peak more after hright
    · exact h₁.peak before more hleft

/-- One step, after which the counts have been taken. -/
theorem covers_step {step : ExecStep} (happrox : Approximates c.state (heldStep held step))
    (hpeak : held.card ≤ c.peakOutstanding)
    (hoverwrite : ∀ var kind, step = .reserve var kind → var ∈ held →
      ∃ d ∈ c.diagnostics, d.var = var ∧ d.code = .overwriteActive) :
    Covers c.recordBudgetSnapshot held [step] := by
  constructor
  · intro before var kind after hsplit hheld
    rcases singleton_eq_append_iff.mp hsplit with ⟨rfl, hstep⟩ | ⟨-, hstep⟩
    · obtain ⟨rfl, -⟩ := cons.inj hstep
      exact hoverwrite var kind rfl hheld
    · cases hstep
  · intro before after hsplit
    rcases singleton_eq_append_iff.mp hsplit with ⟨rfl, -⟩ | ⟨rfl, -⟩
    · exact hpeak.trans (le_max_left _ _)
    · exact happrox.card_le.trans (le_max_right _ _)

/-! ## One instruction -/

theorem checkReserve_state (c : LeakChecker) (var : ObligationVar) (kind : ObligationKind)
    (location : DiagnosticLocation) :
    (c.checkReserve var kind location).state = c.state.insert var (.held kind) := by
  unfold checkReserve
  split
  · split <;> rfl
  · rfl

theorem approximates_checkResolve (h : Approximates c.state held) (var : ObligationVar)
    (action : String) (location : DiagnosticLocation) :
    Approximates (c.checkResolve var action location).state (held.erase var) := by
  rcases checkResolve_cases c var action location with ⟨-, heq⟩ | ⟨hfree, _, _, _, -, heq⟩
  · rw [heq]
    exact h.resolve var
  · rw [heq]
    exact h.resolveUnheld hfree

theorem checkInstruction_branch (c : LeakChecker) {arms : List (List Instruction)}
    (hne : arms ≠ []) (instructionPath branchArms : List Nat) :
    c.checkInstruction (.branch arms) instructionPath branchArms =
      { (c.checkArms c.state arms 0 instructionPath branchArms).1 with
        state := joinStates (c.checkArms c.state arms 0 instructionPath branchArms).2 } := by
  simp [checkInstruction, hne]

/-! ## Whole paths -/

/-- What a walk over `instructions` says about one of its paths, from any checker that
approximates what is held when the path starts. -/
def Sound (instructions : List Instruction) (path : List ExecStep) : Prop :=
  ∀ (c : LeakChecker) (held : Finset ObligationVar) (index : Nat)
    (instructionPrefix branchArms : List Nat),
    Approximates c.state held → held.card ≤ c.peakOutstanding →
      Approximates
          (c.checkInstructions instructions index instructionPrefix branchArms).state
          (heldAfter held path) ∧
        Covers (c.checkInstructions instructions index instructionPrefix branchArms) held path

/-- The rest of the walk, once the first instruction has been walked over and counted. -/
theorem Sound.after (hrest : Sound rest path)
    (happrox : Approximates c.state (heldAfter held taken)) (hcovers : Covers c held taken)
    (index : Nat) (instructionPrefix branchArms : List Nat) :
    Approximates (c.checkInstructions rest index instructionPrefix branchArms).state
        (heldAfter held (taken ++ path)) ∧
      Covers (c.checkInstructions rest index instructionPrefix branchArms) held
        (taken ++ path) := by
  have hpeak : (heldAfter held taken).card ≤ c.peakOutstanding :=
    hcovers.peak taken [] (append_nil taken).symm
  obtain ⟨hstate, htail⟩ := hrest c _ index instructionPrefix branchArms happrox hpeak
  rw [heldAfter_append]
  exact ⟨hstate, (hcovers.mono (grows_checkInstructions c rest _ _ _)).append htail⟩

/-- The rest of the walk after an instruction that is a step of its own. -/
theorem Sound.step {step : ExecStep} (hrest : Sound rest path)
    (happrox : Approximates c.state (heldStep held step)) (hpeak : held.card ≤ c.peakOutstanding)
    (hoverwrite : ∀ var kind, step = .reserve var kind → var ∈ held →
      ∃ d ∈ c.diagnostics, d.var = var ∧ d.code = .overwriteActive) (index : Nat)
    (instructionPrefix branchArms : List Nat) :
    Approximates
        (c.recordBudgetSnapshot.checkInstructions rest index instructionPrefix branchArms).state
        (heldAfter held (step :: path)) ∧
      Covers (c.recordBudgetSnapshot.checkInstructions rest index instructionPrefix branchArms)
        held (step :: path) := by
  have htaken : Approximates c.recordBudgetSnapshot.state (heldAfter held [step]) := happrox
  exact hrest.after htaken (covers_step happrox hpeak hoverwrite) index instructionPrefix branchArms

theorem sound_of_execPath (hpath : ExecPath instructions path) : Sound instructions path := by
  induction hpath with
  | nil =>
    intro c held index instructionPrefix branchArms happrox hpeak
    exact ⟨happrox, Covers.nil hpeak⟩
  | reserve var kind _ ih =>
    intro c held index instructionPrefix branchArms happrox hpeak
    refine ih.step (checkReserve_state c var kind _ ▸ happrox.reserve var kind)
      (hpeak.trans (grows_checkReserve c var kind _).peak) ?_ _ _ _
    rintro var' kind' ⟨⟩ hvar
    obtain ⟨s, hs, hleak⟩ := exists_of_isLeak (happrox.leak var hvar)
    unfold checkReserve
    rw [hs]
    simp only [hleak, if_true]
    exact ⟨_, mem_append_right _ (mem_singleton_self _), rfl, rfl⟩
  | commit var _ ih | abort var _ ih =>
    intro c held index instructionPrefix branchArms happrox hpeak
    refine ih.step (approximates_checkResolve happrox var _ _)
      (hpeak.trans (grows_checkResolve c var _ _).peak) ?_ _ _ _
    rintro var' kind' ⟨⟩
  | skip _ ih =>
    intro c held index instructionPrefix branchArms happrox hpeak
    exact ih _ held _ _ _ happrox (hpeak.trans (grows_recordBudgetSnapshot c).peak)
  | @branch rest arm arms taken path chosen _ _ ihArm ihRest =>
    intro c held index instructionPrefix branchArms happrox hpeak
    rw [checkInstructions, checkInstruction_branch c (ne_nil_of_mem chosen)]
    obtain ⟨c₀, _, hentry, hbefore, hin, hafter⟩ :=
      checkArms_arm c c.state 0 (instructionPrefix ++ [index]) branchArms chosen
    obtain ⟨hstate, hcovers⟩ := ihArm c₀ held 0 _ _ (hentry ▸ happrox) (hpeak.trans hbefore.peak)
    refine ihRest.after (hstate.join hin) (hcovers.mono ?_) _ _ _
    exact (hafter.withState _).trans (grows_recordBudgetSnapshot _)

/-! ## Scope exit -/

/-- A diagnostic of the exit check for a variable in state `s`. -/
structure ExitDiagnostic (var : ObligationVar) (s : VarState) (d : Diagnostic) : Prop where
  var_eq : d.var = var
  code : d.code = .leakExitDefinite ∨ d.code = .leakExitPotential
  definite : d.code = .leakExitDefinite → s.isHeld = true

/-- What the exit check adds for some entries of the state: a diagnostic for each
variable that may be held, and no other. -/
structure ExitReport (entries : List (ObligationVar × VarState)) (c c' : LeakChecker) :
    Prop where
  kept : ∀ d ∈ c.diagnostics, d ∈ c'.diagnostics
  new : ∀ d ∈ c'.diagnostics,
    d ∈ c.diagnostics ∨ ∃ entry ∈ entries, ExitDiagnostic entry.1 entry.2 d
  reported : ∀ entry ∈ entries, entry.2.isLeak = true →
    ∃ d ∈ c'.diagnostics, ExitDiagnostic entry.1 entry.2 d
  peak : c'.peakOutstanding = c.peakOutstanding

theorem ExitReport.pushed (c : LeakChecker) {s : VarState}
    (hcode : code = .leakExitDefinite ∨ code = .leakExitPotential)
    (hdefinite : code = .leakExitDefinite → s.isHeld = true) (kind : DiagnosticKind)
    (obligationKind : Option ObligationKind) (location : DiagnosticLocation) (message : String) :
    ExitReport [(var, s)] c
      (c.pushDiagnostic code kind var obligationKind location message) := by
  refine ⟨fun d hd => mem_append_left _ hd, ?_, ?_, rfl⟩
  · intro d hd
    rcases mem_append.mp hd with hold | hnew
    · exact .inl hold
    · rw [mem_singleton.mp hnew]
      exact .inr ⟨(var, s), mem_singleton_self _, rfl, hcode, hdefinite⟩
  · intro entry hentry _
    rw [mem_singleton.mp hentry]
    exact ⟨_, mem_append_right _ (mem_singleton_self _), rfl, hcode, hdefinite⟩

theorem exitReport_checkExitLeak (c : LeakChecker) (var : ObligationVar) (s : VarState) :
    ExitReport [(var, s)] c (c.checkExitLeak var s) := by
  have hquiet (hs : s.isLeak = false) : ExitReport [(var, s)] c c := by
    refine ⟨fun d hd => hd, fun d hd => .inl hd, ?_, rfl⟩
    intro entry hentry hleak
    rw [mem_singleton.mp hentry, hs] at hleak
    cases hleak
  cases s with
  | empty | resolved => exact hquiet rfl
  | held kind => exact .pushed c (.inl rfl) (fun _ => rfl) _ _ _ _
  | mayHold kind | mayHoldAmbiguous => exact .pushed c (.inr rfl) (by rintro ⟨⟩) _ _ _ _

theorem ExitReport.append {l₁ l₂ : List (ObligationVar × VarState)}
    (h₁ : ExitReport l₁ c₁ c₂) (h₂ : ExitReport l₂ c₂ c₃) : ExitReport (l₁ ++ l₂) c₁ c₃ := by
  refine ⟨fun d hd => h₂.kept d (h₁.kept d hd), ?_, ?_, h₂.peak.trans h₁.peak⟩
  · intro d hd
    rcases h₂.new d hd with hmid | ⟨entry, hentry, hd'⟩
    · rcases h₁.new d hmid with hold | ⟨entry, hentry, hd'⟩
      · exact .inl hold
      · exact .inr ⟨entry, mem_append_left _ hentry, hd'⟩
    · exact .inr ⟨entry, mem_append_right _ hentry, hd'⟩
  · intro entry hentry hleak
    rcases mem_append.mp hentry with hl | hr
    · obtain ⟨d, hd, hd'⟩ := h₁.reported entry hl hleak
      exact ⟨d, h₂.kept d hd, hd'⟩
    · exact h₂.reported entry hr hleak

theorem exitReport_checkExitLeaks (c : LeakChecker) :
    ExitReport c.state.toList c c.checkExitLeaks := by
  unfold checkExitLeaks
  generalize c.state.toList = entries
  induction entries generalizing c with
  | nil => exact ⟨fun d hd => hd, fun d hd => .inl hd, by simp, rfl⟩
  | cons entry entries ih => exact (exitReport_checkExitLeak c entry.1 entry.2).append (ih _)

/-! ## Paths to a resolve -/

/-- `path` leads to the commit or abort of `var` that `site` names: its place in the list
of instructions and, for each branch around it, the place of the branch and the arm. -/
inductive PathTo (var : ObligationVar) : List Instruction → List Nat → List ExecStep → Prop
  | here {instr : Instruction} {rest : List Instruction}
      (resolves : instr = .commit var ∨ instr = .abort var) : PathTo var (instr :: rest) [0] []
  | inside {rest arm : List Instruction} {arms : List (List Instruction)} {index : Nat}
      {site : List Nat} {path : List ExecStep} (chosen : arms[index]? = some arm)
      (tail : PathTo var arm site path) :
      PathTo var (.branch arms :: rest) (0 :: index :: site) path
  | later {instr : Instruction} {rest : List Instruction} {index : Nat} {site : List Nat}
      {taken path : List ExecStep} (first : ExecPath [instr] taken)
      (tail : PathTo var rest (index :: site) path) :
      PathTo var (instr :: rest) ((index + 1) :: site) (taken ++ path)

section Exact

variable {var : ObligationVar}

theorem execPath_cons {instr : Instruction}
    (hfirst : ExecPath [instr] taken) (hrest : ExecPath rest path) :
    ExecPath (instr :: rest) (taken ++ path) := by
  cases hfirst with
  | branch chosen inside tail =>
    cases tail
    rw [append_nil]
    exact .branch chosen inside hrest
  | _ =>
    rename_i tail
    cases tail
    constructor
    exact hrest

/-- A variable that may be held in the join may be held at the exit of one of the arms. -/
theorem exists_isLeak_joinStates (states : List VarStates) (hne : states ≠ [])
    (v : ObligationVar) : ∃ state ∈ states,
      (lookup (joinStates states) v).isLeak = true → (lookup state v).isLeak = true := by
  obtain ⟨first, rest, rfl⟩ := exists_cons_of_ne_nil hne
  rw [lookup_joinStates, isLeak_foldl_join]
  by_cases hv : ∃ state ∈ rest, (lookup state v).isLeak = true
  · obtain ⟨state, hin, hv⟩ := hv
    exact ⟨state, mem_cons_of_mem _ hin, fun _ => hv⟩
  · exact ⟨first, mem_cons_self, fun hor => hor.resolve_right hv⟩

theorem mem_erase_of_checkResolve (h : (lookup c.state var).isLeak = true → var ∈ held)
    {action : String} {location : DiagnosticLocation}
    (hv : (lookup (c.checkResolve v action location).state var).isLeak = true) :
    var ∈ held.erase v := by
  rcases checkResolve_cases c v action location with ⟨-, heq⟩ | ⟨hfree, _, _, _, -, heq⟩
  · rw [heq, lookup_insert] at hv
    split at hv
    · cases hv
    · next hne => exact Finset.mem_erase.mpr ⟨Ne.symm hne, h hv⟩
  · rw [heq] at hv
    refine Finset.mem_erase.mpr ⟨?_, h hv⟩
    rintro rfl
    cases hfree.symm.trans hv

/-- If the variable may be held after a walk, it is held after some path. -/
theorem exists_execPath {c : LeakChecker} {held : Finset ObligationVar}
    (h : (lookup c.state var).isLeak = true → var ∈ held) (instructions : List Instruction)
    (index : Nat) (instructionPrefix branchArms : List Nat) :
    ∃ path, ExecPath instructions path ∧
      ((lookup (c.checkInstructions instructions index instructionPrefix branchArms).state
        var).isLeak = true → var ∈ heldAfter held path) := by
  match instructions with
  | [] => exact ⟨[], .nil, h⟩
  | instr :: rest =>
    obtain ⟨taken, hfirst, htaken⟩ : ∃ taken, ExecPath [instr] taken ∧ ((lookup
        (c.checkInstruction instr (instructionPrefix ++ [index]) branchArms).state
          var).isLeak = true → var ∈ heldAfter held taken) := by
      match instr with
      | .reserve v kind =>
        refine ⟨_, .reserve v kind .nil, fun hv => ?_⟩
        rw [checkInstruction, checkReserve_state, lookup_insert] at hv
        split at hv
        · next heq => exact heq ▸ Finset.mem_insert_self v held
        · exact Finset.mem_insert_of_mem (h hv)
      | .commit v => exact ⟨_, .commit v .nil, mem_erase_of_checkResolve h⟩
      | .abort v => exact ⟨_, .abort v .nil, mem_erase_of_checkResolve h⟩
      | .branch [] => exact ⟨[], .skip .nil, h⟩
      | .branch (arm :: arms) =>
        obtain ⟨state, hstate, hleak⟩ := exists_isLeak_joinStates
          (c.checkArms c.state (arm :: arms) 0 (instructionPrefix ++ [index]) branchArms).2
          (cons_ne_nil _ _) var
        obtain ⟨arm', hmem, c₀, _, hentry, rfl⟩ := checkArms_state c c.state _ _ _ hstate
        have hsize := sizeOf_lt_of_mem hmem
        obtain ⟨path, hpath, hheld⟩ := exists_execPath (hentry ▸ h) arm' _ _ _
        refine ⟨path ++ [], .branch hmem hpath .nil, fun hv => ?_⟩
        rw [append_nil]
        exact hheld (hleak hv)
    obtain ⟨path, hrest, hheld⟩ := exists_execPath (c := recordBudgetSnapshot _) htaken rest
      (index + 1) instructionPrefix branchArms
    exact ⟨taken ++ path, execPath_cons hfirst hrest, by rwa [heldAfter_append]⟩
termination_by sizeOf instructions
decreasing_by all_goals simp at * <;> omega

theorem Grows.clean (h : Grows c c') (hclean : c'.diagnostics = []) : c.diagnostics = [] := by
  rw [eq_nil_iff_forall_not_mem] at hclean ⊢
  exact fun d hd => hclean d (h.kept d hd)

theorem pathTo_of_clean {site : List Nat} (hto : PathTo var instructions site path)
    (h : (lookup c.state var).isLeak = true → var ∈ held)
    {index : Nat} {instructionPrefix branchArms : List Nat} (hclean :
      (c.checkInstructions instructions index instructionPrefix branchArms).diagnostics = []) :
    ∃ path', PathTo var instructions site path' ∧ var ∈ heldAfter held path' := by
  induction hto generalizing c held index instructionPrefix branchArms with
  | here resolves =>
    have hstep := ((grows_recordBudgetSnapshot _).trans (grows_checkInstructions ..)).clean hclean
    refine ⟨[], .here resolves, h ?_⟩
    rcases resolves with rfl | rfl
    all_goals
      rcases checkResolve_cases c var _ _ with ⟨hleak, -⟩ | ⟨-, _, _, _, -, heq⟩
      · exact hleak
      · rw [checkInstruction, heq] at hstep
        cases append_ne_nil_of_right_ne_nil _ (cons_ne_nil _ _) hstep
  | inside chosen _ ih =>
    have hstep := ((grows_recordBudgetSnapshot _).trans (grows_checkInstructions ..)).clean hclean
    have harm := mem_of_getElem? chosen
    rw [checkInstruction_branch c (ne_nil_of_mem harm)] at hstep
    obtain ⟨c₀, _, hentry, -, -, hafter⟩ := checkArms_arm c c.state _ _ _ harm
    obtain ⟨path', hpath, hmem⟩ := ih (hentry ▸ h) (hafter.clean hstep)
    exact ⟨path', .inside chosen hpath, hmem⟩
  | @later instr _ _ _ _ _ _ _ ih =>
    obtain ⟨taken, hfirst, htaken⟩ :=
      exists_execPath h [instr] index instructionPrefix branchArms
    obtain ⟨path', hpath, hmem⟩ := ih htaken hclean
    exact ⟨taken ++ path', .later hfirst hpath, by rwa [heldAfter_append]⟩

end Exact

end LeakChecker

open LeakChecker

/-- **Soundness of the leak checker.**  On every execution path of a body, a variable
still held at exit has an exit leak reported and a reserve of a held variable an
overwrite; a definite exit leak is held at exit on every path; and the reported peak
is at least what any path holds at any point. -/
theorem leak_checker_sound (checker : LeakChecker) (body : Body) (path : List ExecStep)
    (hpath : ExecPath body.instructions path) :
    (∀ var ∈ heldAfter ∅ path, ∃ d ∈ (checker.check body).diagnostics,
        d.var = var ∧ (d.code = .leakExitDefinite ∨ d.code = .leakExitPotential)) ∧
      (∀ before var kind after, path = before ++ .reserve var kind :: after →
        var ∈ heldAfter ∅ before →
          ∃ d ∈ (checker.check body).diagnostics, d.var = var ∧ d.code = .overwriteActive) ∧
      (∀ d ∈ (checker.check body).diagnostics, d.code = .leakExitDefinite →
        d.var ∈ heldAfter ∅ path) ∧
      (∀ before after, path = before ++ after →
        (heldAfter ∅ before).card ≤
          (checker.check body).gradedBudget.conservativePeakOutstanding) := by
  let start := (reset body).recordBudgetSnapshot
  let walked := start.checkInstructions body.instructions 0 [] []
  have hgrows : Grows start walked := grows_checkInstructions _ _ _ _ _
  have hsound := sound_of_execPath hpath start ∅ 0 [] []
    approximates_empty (Nat.zero_le _)
  have happrox : Approximates walked.state (heldAfter ∅ path) := hsound.1
  have hcovers : Covers walked ∅ path := hsound.2
  have hexit := exitReport_checkExitLeaks walked
  refine ⟨?_, ?_, ?_, ?_⟩
  · intro var hvar
    obtain ⟨s, hs, hleak⟩ := exists_of_isLeak (happrox.leak var hvar)
    obtain ⟨d, hd, hd'⟩ := hexit.reported (var, s)
      (ExtTreeMap.mem_toList_iff_getElem?_eq_some.mpr hs) hleak
    exact ⟨d, hd, hd'.var_eq, hd'.code⟩
  · intro before var kind after hsplit hheld
    obtain ⟨d, hd, hd'⟩ := hcovers.overwrite before var kind after hsplit hheld
    exact ⟨d, hexit.kept d hd, hd'⟩
  · intro d hd hcode
    rcases hexit.new d hd with hwalk | ⟨⟨var, s⟩, hentry, hd'⟩
    · -- The walk itself starts without diagnostics and reports no exit leak.
      rcases hgrows.inside d hwalk with hstart | hinside
      · cases hstart
      · exact (hinside hcode).elim
    · have hs : walked.state[var]? = some s :=
        ExtTreeMap.mem_toList_iff_getElem?_eq_some.mp hentry
      have hheld : (lookup walked.state var).isHeld = true := by
        rw [lookup_eq, hs]
        exact hd'.definite hcode
      rw [hd'.var_eq]
      exact happrox.held var hheld
  · intro before after hsplit
    exact (hcovers.peak before after hsplit).trans hexit.peak.symm.le

def lateLease : Body :=
  { name := "late_lease"
    instructions := [.reserve 0 .ack, .branch [[.commit 0], [.reserve 0 .lease]]] }

/-- The second arm overwrites the acknowledgement and keeps the lease. -/
theorem leak_checker_sound_late_lease :
    ExecPath lateLease.instructions [.reserve 0 .ack, .reserve 0 .lease] ∧
      (∃ d ∈ ((reset lateLease).check lateLease).diagnostics,
        d.var = 0 ∧ (d.code = .leakExitDefinite ∨ d.code = .leakExitPotential)) ∧
      (∃ d ∈ ((reset lateLease).check lateLease).diagnostics,
        d.var = 0 ∧ d.code = .overwriteActive) := by
  have hpath : ExecPath lateLease.instructions [.reserve 0 .ack, .reserve 0 .lease] :=
    .reserve 0 .ack
      (.branch (mem_cons_of_mem _ mem_cons_self) (.reserve 0 .lease .nil) .nil)
  obtain ⟨hexit, hoverwrite, -, -⟩ :=
    leak_checker_sound (reset lateLease) lateLease _ hpath
  exact ⟨hpath, hexit 0 (by decide), hoverwrite [.reserve 0 .ack] 0 .lease [] rfl (by decide)⟩

/-- **Clean reports and resolves.**  If nothing is reported, each commit and abort of the
body acts on a held variable on at least one of the paths that lead to it. -/
theorem clean_resolves_held (checker : LeakChecker) (body : Body)
    (hclean : (checker.check body).diagnostics = []) {var : ObligationVar} {site : List Nat}
    {path : List ExecStep} (hpath : PathTo var body.instructions site path) :
    ∃ path', PathTo var body.instructions site path' ∧ var ∈ heldAfter ∅ path' := by
  have hexit := exitReport_checkExitLeaks
    ((reset body).recordBudgetSnapshot.checkInstructions body.instructions 0 [] [])
  have hwalk := eq_nil_iff_forall_not_mem.mpr fun d hd =>
    eq_nil_iff_forall_not_mem.mp hclean d (hexit.kept d hd)
  exact pathTo_of_clean hpath (by rintro ⟨⟩) hwalk

def branchReserve : Body :=
  { name := "branch_reserve"
    instructions := [.branch [[.reserve 0 .ack], []], .commit 0] }

theorem branchReserve_clean : ((reset branchReserve).check branchReserve).diagnostics = [] := by
  decide +kernel

/-- The commit acts on what the first arm reserves. -/
theorem clean_resolves_held_first_arm :
    ((reset branchReserve).check branchReserve).diagnostics = [] ∧
      ∃ path, PathTo 0 branchReserve.instructions [1] path ∧ 0 ∈ heldAfter ∅ path :=
  ⟨branchReserve_clean, clean_resolves_held _ _ branchReserve_clean
    (.later (.branch mem_cons_self (.reserve 0 .ack .nil) .nil) (.here (.inl rfl)))⟩

/-- The report is clean, and the path through the second arm commits a variable that was
never reserved. -/
theorem clean_resolves_unheld :
    ((reset branchReserve).check branchReserve).diagnostics = [] ∧
      ExecPath branchReserve.instructions [.commit 0] ∧ 0 ∉ heldAfter ∅ [] :=
  ⟨branchReserve_clean,
    .branch (mem_cons_of_mem _ mem_cons_self) .nil (.commit 0 .nil), by decide⟩

end Asupersync
