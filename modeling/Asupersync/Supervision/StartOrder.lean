import Asupersync.Lib.DependencyOrder
import Asupersync.Supervision.Compile

/-!
# The start order of a supervisor

A supervisor compiles exactly when its names are unique, its dependencies exist,
no child that starts at once depends on a deferred one, and nothing depends on
itself in the end.  The start order is then the least order of the children that
respects the dependencies, and otherwise the error lists the children that a
cycle keeps from starting.

The loop keeps three facts: the children that have started form a greedy list
(`Lib.DependencyOrder.Greedy`), the in-degree of a child counts the names it
needs whose children have not started, and the ready keys are the children with
in-degree zero that have not started.
-/

namespace Asupersync

open Lib.DependencyOrder Function Finset List Option

universe u

variable {ν : Type u} {children pre rest : List (ChildSpec ν)}
  {names : ν → Option Nat} {i j idx : Nat} {n : ν}

/-- Child `i` depends on child `j`. -/
def DependsOn (children : List (ChildSpec ν)) (i j : Nat) : Prop :=
  ∃ c d, children[i]? = some c ∧ children[j]? = some d ∧ d.name ∈ c.dependsOn

theorem DependsOn.lt_length (h : DependsOn children i j) :
    i < children.length ∧ j < children.length := by
  obtain ⟨c, d, hc, hd, -⟩ := h
  exact ⟨(List.getElem?_eq_some_iff.mp hc).1, (List.getElem?_eq_some_iff.mp hd).1⟩

/-- No child depends on itself exactly when no child needs a cycle. -/
theorem acyclic_iff_needsCycle :
    (∀ i, ¬Relation.TransGen (DependsOn children) i i) ↔
      ∀ i < children.length, ¬NeedsCycle (DependsOn children) i := by
  constructor
  · rintro h i - ⟨j, -, hcycle⟩
    exact h j hcycle
  · intro h i hcycle
    obtain ⟨j, hdep, -⟩ := Relation.TransGen.head'_iff.mp hcycle
    exact h i hdep.lt_length.1 ⟨i, .refl, hcycle⟩

/-- Which of two children the tie-break prefers. -/
def StartTieBreak.Before [LinearOrder ν] (children : List (ChildSpec ν)) : StartTieBreak → Nat → Nat → Prop
  | .insertionOrder, i, j => i < j
  | .nameLex, i, j => ∃ c d, children[i]? = some c ∧ children[j]? = some d ∧ c.name < d.name

/-- The conditions under which a supervisor compiles. -/
structure Compiles (children : List (ChildSpec ν)) : Prop where
  unique : (children.map (·.name)).Nodup
  known : ∀ c ∈ children, ∀ n ∈ c.dependsOn, ∃ d ∈ children, d.name = n
  eager : ∀ c ∈ children, c.startImmediately → ∀ d ∈ children, d.name ∈ c.dependsOn →
    d.startImmediately
  acyclic : ∀ i, ¬Relation.TransGen (DependsOn children) i i

namespace CompiledSupervisor

/-- The map finds every child by its name, and nothing else. -/
def Represents (names : ν → Option Nat) (children : List (ChildSpec ν)) : Prop :=
  ∀ n i, names n = some i ↔ ∃ c, children[i]? = some c ∧ c.name = n

theorem Represents.nodup (h : Represents names children) : (children.map (·.name)).Nodup := by
  rw [nodup_iff_pairwise_ne, pairwise_iff_getElem]
  intro i j hi hj hlt heq
  rw [length_map] at hi hj
  rw [getElem_map, getElem_map] at heq
  have hfst := (h children[j].name i).mpr ⟨_, getElem?_eq_getElem hi, heq⟩
  have hsnd := (h children[j].name j).mpr ⟨_, getElem?_eq_getElem hj, rfl⟩
  rw [hfst, some.injEq] at hsnd
  omega

theorem Represents.injective (h : Represents names children) {n n' : ν} (hn : names n = some j)
    (hn' : names n' = some j) : n = n' := by
  obtain ⟨c, hc, rfl⟩ := (h n j).mp hn
  obtain ⟨c', hc', rfl⟩ := (h n' j).mp hn'
  rw [hc, some.injEq] at hc'
  rw [hc']

/-- The dependency `n` of `child` exists, and may be waited for. -/
def Fits (children : List (ChildSpec ν)) (names : ν → Option Nat) (child : ChildSpec ν) (n : ν) :
    Prop :=
  ∃ j, names n = some j ∧
    (child.startImmediately && !(children[j]?.all (·.startImmediately))) = false

/-- The checks on dependencies, in terms of the children. -/
theorem fits_iff (hnames : Represents names children) (c : ChildSpec ν) (n : ν) :
    Fits children names c n ↔
      (∃ d ∈ children, d.name = n) ∧
        (c.startImmediately → ∀ d ∈ children, d.name = n → d.startImmediately) := by
  have hfind : ∀ d ∈ children, ∃ j, names d.name = some j ∧ children[j]? = some d := by
    intro d hd
    obtain ⟨j, hj⟩ := mem_iff_getElem?.mp hd
    exact ⟨j, (hnames d.name j).mpr ⟨d, hj, rfl⟩, hj⟩
  constructor
  · rintro ⟨j, hj, hfits⟩
    obtain ⟨d, hd, hname⟩ := (hnames n j).mp hj
    refine ⟨⟨d, mem_of_getElem? hd, hname⟩, fun heager d' hd' hname' => ?_⟩
    obtain ⟨j', hj', hdj'⟩ := hfind d' hd'
    rw [hname', hj, some.injEq] at hj'
    rw [heager, hj', hdj', all_some, Bool.true_and, Bool.not_eq_false'] at hfits
    exact hfits
  · rintro ⟨⟨d, hd, rfl⟩, heager⟩
    obtain ⟨j, hj, hdj⟩ := hfind d hd
    refine ⟨j, hj, ?_⟩
    rw [hdj, all_some]
    cases hc : c.startImmediately with
    | false => rfl
    | true => simp [heager hc d hd rfl]

/-- The dependencies pass the checks exactly when they exist and no child that
starts at once waits for a deferred one. -/
theorem forall_fits_iff (hnames : Represents names children) :
    (∀ c ∈ children, ∀ n ∈ c.dependsOn, Fits children names c n) ↔
      (∀ c ∈ children, ∀ n ∈ c.dependsOn, ∃ d ∈ children, d.name = n) ∧
        ∀ c ∈ children, c.startImmediately → ∀ d ∈ children, d.name ∈ c.dependsOn →
          d.startImmediately := by
  simp only [fits_iff hnames]
  constructor
  · intro h
    exact ⟨fun c hc n hn => (h c hc n hn).1, fun c hc hstart d hd hmem =>
      (h c hc d.name hmem).2 hstart d hd rfl⟩
  · rintro ⟨hknown, heager⟩ c hc n hn
    exact ⟨hknown c hc n hn, fun hstart d hd hname => heager c hc hstart d hd (hname ▸ hn)⟩

/-- Linking gives links with `P`, or fails because of `Q`. -/
inductive Gives (P : Links → Prop) (Q : Prop) :
    Except (SupervisorCompileError ν) Links → Prop
  | ok {links : Links} : P links → Gives P Q (.ok links)
  | error {e : SupervisorCompileError ν} : Q → (∀ r, e ≠ .cycleDetected r) → Gives P Q (.error e)

theorem Gives.mono {P P' : Links → Prop} {Q Q' : Prop}
    {result : Except (SupervisorCompileError ν) Links} (h : Gives P Q result)
    (hP : ∀ links, P links → P' links) (hQ : Q → Q') : Gives P' Q' result := by
  cases h with
  | ok h => exact .ok (hP _ h)
  | error h he => exact .error (hQ h) he

/-- The key belongs to a child. -/
def IsKey (children : List (ChildSpec ν)) (key : ReadyKey ν) : Prop :=
  ∃ c, children[key.idx]? = some c ∧ c.name = key.name

theorem IsKey.lt_length {key : ReadyKey ν} (h : IsKey children key) : key.idx < children.length := by
  obtain ⟨c, hc, -⟩ := h
  exact (List.getElem?_eq_some_iff.mp hc).1

theorem IsKey.eq_iff {key next : ReadyKey ν} (h : IsKey children key) (h' : IsKey children next) :
    key.idx = next.idx ↔ key = next := by
  obtain ⟨c, hc, hname⟩ := h
  obtain ⟨d, hd, hname'⟩ := h'
  refine ⟨fun heq => ?_, fun heq => heq ▸ rfl⟩
  rw [heq, hd, some.injEq] at hc
  cases key
  cases next
  rw [ReadyKey.mk.injEq]
  exact ⟨hname.symm.trans (hc ▸ hname'), heq⟩

theorem isKey_of_lt (hi : i < children.length) : ∃ key, IsKey children key ∧ key.idx = i :=
  ⟨⟨children[i].name, i⟩, ⟨_, getElem?_eq_getElem hi, rfl⟩, rfl⟩

theorem initialReady_eq (indeg : Nat → Nat) (rest : List (ChildSpec ν)) (start : Nat) :
    initialReady indeg rest start =
      ((rest.zipIdx start).filter fun p => indeg p.2 = 0).map fun p => ⟨p.1.name, p.2⟩ := by
  induction rest generalizing start with
  | nil => rfl
  | cons child rest ih =>
    rw [initialReady, ih, zipIdx_cons, List.filter_cons]
    split <;> simp [*]

theorem mem_initialReady {indeg : Nat → Nat} {key : ReadyKey ν} :
    key ∈ initialReady indeg children 0 ↔ IsKey children key ∧ indeg key.idx = 0 := by
  simp only [initialReady_eq, List.mem_map, List.mem_filter, Prod.exists, mem_zipIdx_iff_getElem?,
    decide_eq_true_eq]
  constructor
  · rintro ⟨c, i, ⟨hc, hzero⟩, rfl⟩
    exact ⟨⟨c, hc, rfl⟩, hzero⟩
  · rintro ⟨⟨c, hc, hname⟩, hzero⟩
    exact ⟨c, key.idx, ⟨hc, hzero⟩, by rw [hname]⟩

theorem nodup_initialReady {indeg : Nat → Nat} : (initialReady indeg children 0).Nodup := by
  refine Nodup.of_map (·.idx) ?_
  rw [initialReady_eq, List.map_map]
  exact .sublist (zipIdx_map_snd 0 children ▸ filter_sublist.map Prod.snd) List.nodup_range'

theorem getElem?_snoc_eq_some_iff {child c : ChildSpec ν} :
    (pre ++ [child])[i]? = some c ↔ pre[i]? = some c ∨ i = pre.length ∧ child = c := by
  constructor
  · intro h
    rcases Lib.getElem?_concat_cases h with h | ⟨rfl, rfl⟩
    · exact .inl h
    · exact .inr ⟨rfl, rfl⟩
  · rintro (h | ⟨rfl, rfl⟩)
    · exact getElem?_append_left (List.getElem?_eq_some_iff.mp h).1 ▸ h
    · exact getElem?_concat_length

variable [LinearOrder ν] {builder : SupervisorBuilder ν}

theorem Represents.snoc {child : ChildSpec ν} (h : Represents names pre)
    (hfresh : names child.name = none) :
    Represents (update names child.name (some pre.length)) (pre ++ [child]) := by
  intro n i
  simp only [getElem?_snoc_eq_some_iff, or_and_right, exists_or, ← h n i]
  rcases eq_or_ne n child.name with rfl | hne
  · simp [hfresh, eq_comm]
  · simp [hne, hne.symm]

/-- The names are unique and the map finds them, or one of them occurs twice. -/
theorem nameToIdx_spec (rest : List (ChildSpec ν)) (h : Represents names pre) :
    match nameToIdx rest pre.length names with
    | .ok names' => Represents names' (pre ++ rest)
    | .error e => ¬((pre ++ rest).map (·.name)).Nodup ∧ ∃ n, e = .duplicateChildName n := by
  induction rest generalizing pre names with
  | nil => rwa [nameToIdx, append_nil]
  | cons child rest ih =>
    rw [nameToIdx]
    split_ifs with hseen
    · refine ⟨fun hnodup => ?_, _, rfl⟩
      obtain ⟨i, hi⟩ := isSome_iff_exists.mp hseen
      obtain ⟨c, hc, hname⟩ := (h child.name i).mp hi
      rw [map_append, nodup_append] at hnodup
      refine hnodup.2.2 c.name (mem_map.mpr ⟨c, mem_of_getElem? hc, rfl⟩) child.name ?_ hname
      exact mem_cons_self
    · have hrest := ih (h.snoc (not_isSome_iff_eq_none.mp hseen))
      rwa [length_append, ← append_cons] at hrest

/-- The names that child `i` needs. -/
def needs (children : List (ChildSpec ν)) (i : Nat) : Finset ν :=
  (children[i]?).elim ∅ fun c => c.dependsOn.toFinset

theorem mem_needs : n ∈ needs children i ↔ ∃ c, children[i]? = some c ∧ n ∈ c.dependsOn := by
  cases hc : children[i]? with
  | none | some c => simp [needs, hc]

theorem needs_snoc (pre : List (ChildSpec ν)) (child : ChildSpec ν) :
    needs (pre ++ [child]) = update (needs pre) pre.length child.dependsOn.toFinset := by
  funext i
  rw [needs]
  rcases lt_trichotomy i pre.length with hi | rfl | hi
  · rw [update_of_ne (by omega), needs, getElem?_append_left hi]
  · simp
  · rw [update_of_ne (by omega), needs, getElem?_eq_none (by simp; omega),
      getElem?_eq_none (by omega)]

theorem Represents.dependsOn_iff (h : Represents names children) :
    DependsOn children i j ↔ ∃ n ∈ needs children i, names n = some j := by
  constructor
  · rintro ⟨c, d, hc, hd, hmem⟩
    exact ⟨d.name, mem_needs.mpr ⟨c, hc, hmem⟩, (h d.name j).mpr ⟨d, hd, rfl⟩⟩
  · rintro ⟨n, hn, hj⟩
    obtain ⟨c, hc, hmem⟩ := mem_needs.mp hn
    obtain ⟨d, hd, rfl⟩ := (h n j).mp hj
    exact ⟨c, d, hc, hd, hmem⟩

section Link

/-- The links say which names of `done` every child needs. -/
structure Linked (names : ν → Option Nat) (done : Nat → Finset ν) (links : Links) : Prop where
  indeg : ∀ i, links.indeg i = (done i).card
  nodup : ∀ j, (links.out j).Nodup
  mem_out : ∀ j i, i ∈ links.out j ↔ ∃ n ∈ done i, names n = some j

variable {done : Nat → Finset ν} {links : Links} {child : ChildSpec ν} {deps seen : List ν}

theorem Linked.add (h : Linked names done links) (hnames : Represents names children)
    (hj : names n = some j) (hfresh : n ∉ done idx) :
    Linked names (update done idx (insert n (done idx)))
      { indeg := update links.indeg idx (links.indeg idx + 1)
        out := update links.out j (links.out j ++ [idx]) } := by
  refine ⟨fun i => ?_, fun k => ?_, fun k i => ?_⟩
  · rcases eq_or_ne i idx with rfl | hne
    · simp only [update_self]
      rw [card_insert_of_notMem hfresh, h.indeg]
    · simp only [update_of_ne hne]
      exact h.indeg i
  · rcases eq_or_ne k j with rfl | hne
    · simp only [update_self]
      refine nodup_append.mpr ⟨h.nodup k, nodup_singleton _, ?_⟩
      rintro a ha b hb rfl
      obtain ⟨n', hn', hk⟩ := (h.mem_out k a).mp ha
      rw [List.mem_singleton.mp hb, hnames.injective hk hj] at hn'
      exact hfresh hn'
    · simp only [update_of_ne hne]
      exact h.nodup k
  have hout : i ∈ update links.out j (links.out j ++ [idx]) k ↔
      i ∈ links.out k ∨ k = j ∧ i = idx := by
    rcases eq_or_ne k j with rfl | hne
    · simp
    · simp [hne]
  have hdone : ∀ m, m ∈ update done idx (insert n (done idx)) i ↔
      m ∈ done i ∨ i = idx ∧ m = n := by
    rcases eq_or_ne i idx with rfl | hne
    · simp [or_comm]
    · simp [hne]
  rw [hout, h.mem_out]
  constructor
  · rintro (⟨m, hm, hk⟩ | ⟨rfl, rfl⟩)
    · exact ⟨m, (hdone m).mpr (.inl hm), hk⟩
    · exact ⟨n, (hdone n).mpr (.inr ⟨rfl, rfl⟩), hj⟩
  · rintro ⟨m, hm, hk⟩
    rcases (hdone m).mp hm with hm | ⟨rfl, rfl⟩
    · exact .inl ⟨m, hm, hk⟩
    · rw [hj, some.injEq] at hk
      exact .inr ⟨hk.symm, rfl⟩

theorem linkChild_spec (hnames : Represents names children) (h : Linked names done links)
    (hseen : done idx = seen.toFinset) :
    Gives
      (fun links' => Linked names (update done idx (seen.toFinset ∪ deps.toFinset)) links' ∧
        ∀ n ∈ deps, n ∉ seen → Fits children names child n)
      (∃ n ∈ deps, ¬Fits children names child n)
      (linkChild children names idx child deps seen links) := by
  induction deps generalizing seen done links with
  | nil =>
    refine .ok ⟨?_, nofun⟩
    rwa [toFinset_nil, union_empty, ← hseen, update_eq_self]
  | cons dep deps ih =>
    have hlater : (∃ n ∈ deps, ¬Fits children names child n) →
        ∃ n ∈ dep :: deps, ¬Fits children names child n := fun ⟨n, hn, hnot⟩ =>
      ⟨n, mem_cons_of_mem _ hn, hnot⟩
    rw [linkChild]
    split_ifs with hdep
    · refine (ih h hseen).mono ?_ hlater
      rintro links' ⟨hlinked, hfits⟩
      have hunion : seen.toFinset ∪ (dep :: deps).toFinset = seen.toFinset ∪ deps.toFinset := by
        rw [toFinset_cons, union_insert, insert_eq_of_mem]
        exact mem_union_left _ (mem_toFinset.mpr hdep)
      refine ⟨hunion ▸ hlinked, fun n hn hnot => ?_⟩
      rcases mem_cons.mp hn with rfl | hn
      · exact absurd hdep hnot
      · exact hfits n hn hnot
    cases hj : names dep with
    | none =>
      refine .error ⟨dep, mem_cons_self, ?_⟩ (by simp)
      rintro ⟨j, hj', -⟩
      rw [hj] at hj'
      exact absurd hj' (by simp)
    | some j =>
      dsimp only
      split_ifs with hlate
      · refine .error ⟨dep, mem_cons_self, ?_⟩ (by simp)
        rintro ⟨j', hj', hfits⟩
        rw [hj, some.injEq] at hj'
        rw [← hj', hlate] at hfits
        exact absurd hfits (by simp)
      have hfresh : dep ∉ done idx := by
        rwa [hseen, List.mem_toFinset]
      have hseen' : update done idx (insert dep (done idx)) idx = (dep :: seen).toFinset := by
        rw [update_self, hseen, toFinset_cons]
      refine (ih (h.add hnames hj hfresh) hseen').mono ?_ hlater
      rintro links' ⟨hlinked, hfits⟩
      refine ⟨?_, fun n hn hnot => ?_⟩
      · rw [update_idem, toFinset_cons, insert_union] at hlinked
        rwa [toFinset_cons, union_insert]
      · by_cases heq : n = dep
        · exact heq ▸ ⟨j, hj, Bool.eq_false_of_not_eq_true hlate⟩
        · exact hfits n (mem_of_ne_of_mem heq hn) (by simp [heq, hnot])

theorem linkChildren_spec (hnames : Represents names children)
    (h : Linked names (needs pre) links) :
    Gives
      (fun links' => Linked names (needs (pre ++ rest)) links' ∧
        ∀ c ∈ rest, ∀ n ∈ c.dependsOn, Fits children names c n)
      (∃ c ∈ rest, ∃ n ∈ c.dependsOn, ¬Fits children names c n)
      (linkChildren children names rest pre.length links) := by
  induction rest generalizing pre links with
  | nil =>
    rw [linkChildren, append_nil]
    exact .ok ⟨h, nofun⟩
  | cons child rest ih =>
    have hnone : needs pre pre.length = ([] : List ν).toFinset := by
      rw [needs, getElem?_eq_none le_rfl]
      rfl
    rw [linkChildren]
    generalize hresult : linkChild children names pre.length child child.dependsOn [] links = result
    have hchild := hresult ▸ linkChild_spec hnames h hnone
    cases hchild with
    | error hnot he => exact .error ⟨child, mem_cons_self, hnot⟩ he
    | ok hlinked =>
      obtain ⟨hlinked, hfits⟩ := hlinked
      rw [toFinset_nil, empty_union, ← needs_snoc] at hlinked
      have hrest := ih hlinked
      rw [length_append, length_singleton, ← append_cons] at hrest
      refine hrest.mono ?_ fun ⟨c, hc, hnot⟩ => ⟨c, mem_cons_of_mem _ hc, hnot⟩
      rintro links'' ⟨hlinked', hrestFits⟩
      refine ⟨hlinked', fun c hc => ?_⟩
      rcases mem_cons.mp hc with rfl | hc
      · exact fun n hn => hfits n hn not_mem_nil
      · exact hrestFits c hc

end Link

section Loop

variable {progress : StartProgress ν} {links : Links} {tieBreak : StartTieBreak}
  {next key : ReadyKey ν}

/-- The names that child `i` needs and whose children have not started. -/
def unmet (children : List (ChildSpec ν)) (names : ν → Option Nat) (order : List Nat) (i : Nat) :
    Finset ν :=
  (needs children i).filter fun n => (names n).all (· ∉ order)

/-- What holds whenever the loop chooses the next child. -/
structure LoopInv (children : List (ChildSpec ν)) (names : ν → Option Nat)
    (tieBreak : StartTieBreak) (progress : StartProgress ν) : Prop where
  greedy : Greedy (DependsOn children) (tieBreak.Before children) (Finset.range children.length)
    progress.order
  indeg : ∀ i, progress.indeg i = (unmet children names progress.order i).card
  ready : ∀ key, key ∈ progress.ready ↔
    IsKey children key ∧ key.idx ∉ progress.order ∧ progress.indeg key.idx = 0
  nodup : progress.ready.Nodup

/-- A child is free to start when no name that it needs is unmet. -/
theorem free_iff_unmet (hnames : Represents names children)
    (hknown : ∀ i, ∀ n ∈ needs children i, (names n).isSome) (order : List Nat) :
    Free (DependsOn children) order i ↔ (unmet children names order i).card = 0 := by
  rw [card_eq_zero, unmet, filter_eq_empty_iff]
  constructor
  · intro h n hn hall
    obtain ⟨j, hj⟩ := isSome_iff_exists.mp (hknown i n hn)
    rw [hj, all_some, decide_eq_true_eq] at hall
    exact hall (h j (hnames.dependsOn_iff.mpr ⟨n, hn, hj⟩))
  · intro h j hdep
    obtain ⟨n, hn, hj⟩ := hnames.dependsOn_iff.mp hdep
    by_contra hnot
    refine h hn ?_
    rw [hj, all_some, decide_eq_true_eq]
    exact hnot

/-- Starting a child takes its name out of what the others still need. -/
theorem unmet_snoc (hnames : Represents names children) (hkey : IsKey children key)
    (order : List Nat) (i : Nat) :
    unmet children names (order ++ [key.idx]) i = (unmet children names order i).erase key.name := by
  have hname : names key.name = some key.idx := (hnames _ _).mpr hkey
  ext n
  rw [unmet, unmet, Finset.mem_erase, Finset.mem_filter, Finset.mem_filter]
  have hsame : names n = some key.idx ↔ n = key.name :=
    ⟨fun hj => hnames.injective hj hname, fun heq => heq ▸ hname⟩
  rw [ne_eq, ← hsame]
  cases names n with
  | none => simp
  | some j =>
    simp only [all_some, decide_eq_true_eq, List.mem_append, List.mem_singleton, not_or, some.injEq]
    tauto

/-- What releasing a list of children does. -/
structure Released (children : List (ChildSpec ν)) (succs : List Nat)
    (progress progress' : StartProgress ν) : Prop where
  order : progress'.order = progress.order
  indeg : ∀ i, progress'.indeg i = if i ∈ succs then progress.indeg i - 1 else progress.indeg i
  ready : ∀ key, key ∈ progress'.ready ↔ key ∈ progress.ready ∨
    key.idx ∈ succs ∧ progress.indeg key.idx - 1 = 0 ∧ IsKey children key
  nodup : progress.ready.Nodup → progress'.ready.Nodup

theorem released_release (children : List (ChildSpec ν)) (progress : StartProgress ν) (succ : Nat) :
    Released children [succ] progress (release children progress succ) where
  order := rfl
  indeg i := by
    rcases eq_or_ne i succ with rfl | hne
    · simp [release]
    · simp [release, hne]
  ready key := by
    rw [release]
    split
    next hzero =>
      cases hc : children[succ]? with
      | none =>
        rw [elim_none, iff_self_or, List.mem_singleton]
        rintro ⟨rfl, -, c, hc', -⟩
        rw [hc] at hc'
        exact absurd hc' (by simp)
      | some c =>
        rw [elim_some, List.mem_insert_iff, or_comm, List.mem_singleton]
        have hsucc : IsKey children ⟨c.name, succ⟩ := ⟨c, hc, rfl⟩
        refine or_congr_right ⟨?_, ?_⟩
        · rintro rfl
          exact ⟨rfl, hzero, hsucc⟩
        · rintro ⟨hidx, -, hkey⟩
          exact (hkey.eq_iff hsucc).mp hidx
    next hpos =>
      rw [iff_self_or, List.mem_singleton]
      rintro ⟨rfl, hzero, -⟩
      exact absurd hzero hpos
  nodup hnodup := by
    rw [release]
    split
    · cases children[succ]? with
      | none => exact hnodup
      | some c => exact hnodup.insert
    · exact hnodup

theorem released_foldl (children : List (ChildSpec ν)) {succs : List Nat} (hnodup : succs.Nodup)
    (progress : StartProgress ν) :
    Released children succs progress (succs.foldl (release children) progress) := by
  induction succs generalizing progress with
  | nil => exact ⟨rfl, by simp, by simp, id⟩
  | cons succ succs ih =>
    obtain ⟨hfresh, hnodup⟩ := nodup_cons.mp hnodup
    have hone := released_release children progress succ
    have hrest := ih hnodup (release children progress succ)
    rw [foldl_cons]
    refine ⟨hrest.order.trans hone.order, fun i => ?_, fun key => ?_, fun h => hrest.nodup (hone.nodup h)⟩
    · rw [hrest.indeg, hone.indeg]
      rcases eq_or_ne i succ with rfl | hne
      · simp [hfresh]
      · simp [hne]
    · rw [hrest.ready, hone.ready, hone.indeg]
      refine or_assoc.trans (or_congr_right ?_)
      rcases eq_or_ne key.idx succ with heq | hne
      · simp [heq, hfresh]
      · simp [hne]

/-- The chosen key is ready, and the tie-break prefers it to all others. -/
theorem nextReady_spec (hnames : Represents names children)
    (hkeys : ∀ key ∈ progress.ready, IsKey children key)
    (hnext : nextReady tieBreak progress.ready = some next) :
    next ∈ progress.ready ∧
      ∀ key ∈ progress.ready, key.idx ≠ next.idx → tieBreak.Before children next.idx key.idx := by
  cases tieBreak with
  | insertionOrder =>
    refine ⟨argmin_mem hnext, fun key hkey hne => ?_⟩
    rcases Prod.Lex.toLex_le_toLex.mp (le_of_mem_argmin hkey hnext) with hlt | ⟨heq, -⟩
    · exact hlt
    · exact absurd heq.symm hne
  | nameLex =>
    refine ⟨argmin_mem hnext, fun key hkey hne => ?_⟩
    obtain ⟨c, hc, hcname⟩ := hkeys next (argmin_mem hnext)
    obtain ⟨d, hd, hdname⟩ := hkeys key hkey
    refine ⟨c, d, hc, hd, ?_⟩
    rcases Prod.Lex.toLex_le_toLex.mp (le_of_mem_argmin hkey hnext) with hlt | ⟨heq, -⟩
    · rwa [hcname, hdname]
    · -- equal names belong to one child
      have hfst := (hnames next.name next.idx).mpr ⟨c, hc, hcname⟩
      have hsnd := (hnames key.name key.idx).mpr ⟨d, hd, hdname⟩
      have hname : next.name = key.name := heq
      rw [hname, hsnd, some.injEq] at hfst
      exact absurd hfst hne

section Run

variable (hnames : Represents names children)
  (hknown : ∀ i, ∀ n ∈ needs children i, (names n).isSome)
  (hlinked : Linked names (needs children) links)

include hnames hknown

variable (h : LoopInv children names tieBreak progress)

include h

/-- In the loop, a child is free exactly when its in-degree is zero. -/
theorem LoopInv.free_iff : Free (DependsOn children) progress.order i ↔ progress.indeg i = 0 := by
  rw [free_iff_unmet hnames hknown, h.indeg]

theorem LoopInv.picks (hnext : nextReady tieBreak progress.ready = some next) :
    Picks (DependsOn children) (tieBreak.Before children) (range children.length)
      progress.order next.idx := by
  obtain ⟨hmem, hfirst⟩ := nextReady_spec hnames (fun key hkey => ((h.ready key).mp hkey).1) hnext
  obtain ⟨hkey, hfresh, hzero⟩ := (h.ready next).mp hmem
  refine ⟨Finset.mem_range.mpr hkey.lt_length, hfresh, (h.free_iff hnames hknown).mpr hzero, ?_⟩
  intro j hj hjfresh hjfree hne
  obtain ⟨key, hkey', rfl⟩ := isKey_of_lt (Finset.mem_range.mp hj)
  have hready := (h.ready key).mpr ⟨hkey', hjfresh, (h.free_iff hnames hknown).mp hjfree⟩
  exact hfirst key hready hne

include hlinked

/-- One round of the loop keeps what holds of it. -/
theorem LoopInv.startChild (hnext : nextReady tieBreak progress.ready = some next) :
    LoopInv children names tieBreak (startChild children links.out next progress) := by
  have hpick := h.picks hnames hknown hnext
  have hmem : next ∈ progress.ready :=
    (nextReady_spec hnames (fun key hkey => ((h.ready key).mp hkey).1) hnext).1
  obtain ⟨hkey, hfresh, hzero⟩ := (h.ready next).mp hmem
  have hname : names next.name = some next.idx := (hnames _ _).mpr hkey
  have hreleased := released_foldl children (hlinked.nodup next.idx)
    { progress with ready := progress.ready.erase next, order := progress.order ++ [next.idx] }
  -- a child waits for the one that starts exactly when the name is among its needs
  have hout : ∀ i, i ∈ links.out next.idx ↔ next.name ∈ needs children i := by
    intro i
    rw [hlinked.mem_out]
    constructor
    · rintro ⟨n, hn, hj⟩
      rwa [hnames.injective hname hj]
    · exact fun hn => ⟨next.name, hn, hname⟩
  have hunmet : ∀ i, i ∈ links.out next.idx → next.name ∈ unmet children names progress.order i := by
    intro i hi
    rw [unmet, Finset.mem_filter, hname, all_some, decide_eq_true_eq]
    exact ⟨(hout i).mp hi, hfresh⟩
  have hindeg : ∀ i, (CompiledSupervisor.startChild children links.out next progress).indeg i =
      (unmet children names (progress.order ++ [next.idx]) i).card := by
    intro i
    rw [unmet_snoc hnames hkey]
    refine (hreleased.indeg i).trans ?_
    split
    next hi => rw [card_erase_of_mem (hunmet i hi), h.indeg]
    next hi =>
      rw [erase_eq_of_notMem, h.indeg]
      exact fun hn => hi ((hout i).mpr (Finset.mem_filter.mp hn).1)
  refine ⟨?_, ?_, fun key => ?_, hreleased.nodup (h.nodup.erase next)⟩
  · rw [CompiledSupervisor.startChild, hreleased.order]
    exact h.greedy.snoc hpick
  · rw [CompiledSupervisor.startChild, hreleased.order]
    exact hindeg
  rw [CompiledSupervisor.startChild, hreleased.order, hreleased.ready, hreleased.indeg]
  rw [h.nodup.mem_erase_iff, h.ready key, List.mem_append, List.mem_singleton, not_or]
  by_cases hi : key.idx ∈ links.out next.idx
  · -- the key waits for the child that starts, so it has neither started nor been ready
    have hpos : progress.indeg key.idx ≠ 0 := by
      rw [h.indeg]
      exact card_ne_zero_of_mem (hunmet _ hi)
    have hne : key.idx ≠ next.idx := fun heq => hpos (heq ▸ hzero)
    have hnotmem : key.idx ∉ progress.order := fun hin =>
      hpos ((h.free_iff hnames hknown).mp fun j hdep => h.greedy.closed hin hdep)
    simp only [hi, hpos, if_true, hne, hnotmem]
    tauto
  · simp only [hi, if_false]
    constructor
    · rintro (⟨hne, hkey', hnotmem, hzero'⟩ | ⟨hfalse, -⟩)
      · exact ⟨hkey', ⟨hnotmem, fun heq => hne ((hkey'.eq_iff hkey).mp heq)⟩, hzero'⟩
      · exact hfalse.elim
    · rintro ⟨hkey', ⟨hnotmem, hne⟩, hzero'⟩
      exact .inl ⟨fun heq => hne ((hkey'.eq_iff hkey).mpr heq), hkey', hnotmem, hzero'⟩

/-- The loop ends, with nothing ready. -/
theorem LoopInv.startLoop {fuel : Nat} (hfuel : children.length < progress.order.length + fuel) :
    ∃ last, startLoop children tieBreak links.out fuel progress = some last ∧
      LoopInv children names tieBreak last ∧ last.ready = [] := by
  induction fuel generalizing progress with
  | zero =>
    have hle := h.greedy.length_le
    rw [card_range] at hle
    omega
  | succ fuel ih =>
    rw [CompiledSupervisor.startLoop]
    cases hnext : nextReady tieBreak progress.ready with
    | none => exact ⟨progress, rfl, h, by cases tieBreak <;> exact argmin_eq_none.mp hnext⟩
    | some next =>
      refine ih (h.startChild hnames hknown hlinked hnext) ?_
      rw [CompiledSupervisor.startChild,
        (released_foldl children (hlinked.nodup next.idx) _).order, length_append]
      simp only [length_singleton]
      omega

end Run

theorem loopInv_initial (hlinked : Linked names (needs children) links) :
    LoopInv children names tieBreak
      { indeg := links.indeg, ready := initialReady links.indeg children 0, order := [] } := by
  refine ⟨.nil, fun i => ?_, fun key => ?_, nodup_initialReady⟩
  · have hall : unmet children names [] i = needs children i := by
      refine filter_true_of_mem fun n _ => ?_
      cases names n <;> simp
    rw [hall]
    exact hlinked.indeg i
  · rw [mem_initialReady]
    simp

end Loop

section Results

variable {names : ν → Option Nat} {links : Links} {last : StartProgress ν} {tieBreak : StartTieBreak}

section End

variable (hnames : Represents names children)
  (hknown : ∀ i, ∀ n ∈ needs children i, (names n).isSome)
  (h : LoopInv children names tieBreak last) (hempty : last.ready = [])

include hnames hknown h hempty

/-- When nothing is ready, the children that wait are those that have not started. -/
theorem LoopInv.indeg_eq_zero_iff (hi : i < children.length) :
    last.indeg i = 0 ↔ i ∈ last.order := by
  constructor
  · intro hzero
    by_contra hnot
    obtain ⟨key, hkey, rfl⟩ := isKey_of_lt hi
    have hready := (h.ready key).mpr ⟨hkey, hnot, hzero⟩
    rw [hempty] at hready
    exact not_mem_nil hready
  · intro hmem
    exact (h.free_iff hnames hknown).mp fun j hdep => h.greedy.closed hmem hdep

/-- When nothing is ready, the children that have started are those that need no cycle. -/
theorem LoopInv.mem_order_iff (hi : i < children.length) :
    i ∈ last.order ↔ ¬NeedsCycle (DependsOn children) i := by
  refine h.greedy.mem_iff_of_no_free (fun i _ j hdep => ?_) (fun i hi hnot hfree => ?_)
    (Finset.mem_range.mpr hi)
  · exact Finset.mem_range.mpr hdep.lt_length.2
  · have hzero := (h.free_iff hnames hknown).mp hfree
    exact hnot ((h.indeg_eq_zero_iff hnames hknown hempty (Finset.mem_range.mp hi)).mp hzero)

theorem LoopInv.mem_remaining_iff :
    n ∈ remaining last.indeg children ↔
      ∃ i c, children[i]? = some c ∧ c.name = n ∧ NeedsCycle (DependsOn children) i := by
  simp only [remaining, List.mem_insertionSort, List.mem_map, List.mem_filter, Prod.exists,
    List.mem_zipIdx_iff_getElem?, decide_eq_true_eq]
  have hstuck {i : Nat} {c : ChildSpec ν} (hc : children[i]? = some c) :
      0 < last.indeg i ↔ NeedsCycle (DependsOn children) i := by
    have hi := (List.getElem?_eq_some_iff.mp hc).1
    rw [Nat.pos_iff_ne_zero, ne_eq, h.indeg_eq_zero_iff hnames hknown hempty hi,
      h.mem_order_iff hnames hknown hempty hi, not_not]
  constructor
  · rintro ⟨c, i, ⟨hc, hpos⟩, hname⟩
    exact ⟨i, c, hc, hname, (hstuck hc).mp hpos⟩
  · rintro ⟨i, c, hc, hname, hcycle⟩
    exact ⟨c, i, ⟨hc, (hstuck hc).mpr hcycle⟩, hname⟩

omit hnames hknown hempty in
theorem LoopInv.order_perm (hlength : last.order.length = children.length) :
    last.order.Perm (range children.length) := by
  have hsub : last.order ⊆ range children.length := fun i hi =>
    List.mem_range.mpr (Finset.mem_range.mp (h.greedy.subset hi))
  exact (h.greedy.nodup.subperm hsub).perm_of_length_le (by simp [hlength])

/-- The order is complete exactly when no child needs a cycle. -/
theorem LoopInv.length_eq_iff :
    last.order.length = children.length ↔
      ∀ i < children.length, ¬NeedsCycle (DependsOn children) i := by
  constructor
  · intro hlength i hi
    have hmem := (h.order_perm hlength).symm.subset (List.mem_range.mpr hi)
    exact (h.mem_order_iff hnames hknown hempty hi).mp hmem
  · intro hall
    have hle := h.greedy.length_le
    have hge : (List.range children.length).length ≤ last.order.length := by
      refine (nodup_range.subperm fun i hi => ?_).length_le
      have hlt := List.mem_range.mp hi
      exact (h.mem_order_iff hnames hknown hempty hlt).mpr (hall i hlt)
    rw [card_range] at hle
    rw [length_range] at hge
    exact le_antisymm hle hge

end End

theorem sorted_remaining (hunique : (children.map (·.name)).Nodup) (indeg : Nat → Nat) :
    (remaining indeg children).Pairwise (· < ·) := by
  have hsub : ((children.zipIdx.filter fun p => 0 < indeg p.2).map fun p => p.1.name).Sublist
      (children.map (·.name)) := by
    have hall : children.map (·.name) = children.zipIdx.map ((·.name) ∘ Prod.fst) := by
      rw [← List.map_map, zipIdx_map_fst]
    rw [hall]
    exact filter_sublist.map _
  have hsorted : (remaining indeg children).Pairwise (· ≤ ·) := pairwise_insertionSort _ _
  have hnodup : (remaining indeg children).Nodup :=
    (perm_insertionSort _ _).nodup_iff.mpr (hunique.sublist hsub)
  exact (hsorted.and hnodup).imp fun ⟨hle, hne⟩ => lt_of_le_of_ne hle hne

/-- What `new` computes when the names and the dependencies are in order. -/
theorem new_eq_of_linked (hok : nameToIdx builder.children 0 (fun _ => none) = .ok names)
    (hlinks : linkChildren builder.children names builder.children 0
      ⟨fun _ => 0, fun _ => []⟩ = .ok links) (hnames : Represents names builder.children)
    (hlinked : Linked names (needs builder.children) links)
    (hknown : ∀ i, ∀ n ∈ needs builder.children i, (names n).isSome) :
    ∃ last, LoopInv builder.children names builder.tieBreak last ∧ last.ready = [] ∧
      new builder = some (outcome builder last) := by
  have hinit : LoopInv builder.children names builder.tieBreak
      { indeg := links.indeg, ready := initialReady links.indeg builder.children 0, order := [] } :=
    loopInv_initial hlinked
  have hfuel : builder.children.length < ([] : List Nat).length + (builder.children.length + 1) := by
    omega
  obtain ⟨last, hlast, hinv, hempty⟩ := hinit.startLoop hnames hknown hlinked hfuel
  refine ⟨last, hinv, hempty, ?_⟩
  simp only [new, hok, hlinks, hlast]
  rfl

end Results

/-- What compiling a supervisor promises about the outcome. -/
structure Canonical (builder : SupervisorBuilder ν)
    (result : Except (SupervisorCompileError ν) (CompiledSupervisor ν)) : Prop where
  ok_iff : (∃ supervisor, result = .ok supervisor) ↔ Compiles builder.children
  perm : ∀ supervisor, result = .ok supervisor →
    supervisor.startOrder.Perm (List.range builder.children.length)
  respects : ∀ supervisor, result = .ok supervisor →
    Respects (DependsOn builder.children) supervisor.startOrder
  least : ∀ supervisor, result = .ok supervisor →
    ∀ order : List Nat, order.Perm (List.range builder.children.length) →
      Respects (DependsOn builder.children) order →
      order = supervisor.startOrder ∨
        List.Lex (builder.tieBreak.Before builder.children) supervisor.startOrder order
  sorted : ∀ stuck, result = .error (.cycleDetected stuck) → stuck.Pairwise (· < ·)
  stuck : ∀ stuck, result = .error (.cycleDetected stuck) → ∀ n, n ∈ stuck ↔
    ∃ i c, builder.children[i]? = some c ∧ c.name = n ∧ NeedsCycle (DependsOn builder.children) i

/-- A failed check gives an error that is no cycle. -/
theorem Canonical.of_rejected {e : SupervisorCompileError ν}
    (hnot : ¬Compiles builder.children) (he : ∀ r, e ≠ .cycleDetected r) :
    Canonical builder (.error e) where
  ok_iff := ⟨nofun, fun h => absurd h hnot⟩
  perm := nofun
  respects := nofun
  least := nofun
  sorted r hcycle := absurd (Except.error.inj hcycle) (he r)
  stuck r hcycle := absurd (Except.error.inj hcycle) (he r)

/-- The outcome of the loop is what compiling promises. -/
theorem Canonical.of_loop {last : StartProgress ν} (hnames : Represents names builder.children)
    (hfits : ∀ c ∈ builder.children, ∀ n ∈ c.dependsOn, Fits builder.children names c n)
    (hknown : ∀ i, ∀ n ∈ needs builder.children i, (names n).isSome)
    (hinv : LoopInv builder.children names builder.tieBreak last) (hready : last.ready = []) :
    Canonical builder (outcome builder last) := by
  have hcompiles : last.order.length = builder.children.length ↔ Compiles builder.children := by
    rw [hinv.length_eq_iff hnames hknown hready, ← acyclic_iff_needsCycle]
    refine ⟨fun h => ?_, fun h => h.acyclic⟩
    obtain ⟨hdeps, heager⟩ := (forall_fits_iff hnames).mp hfits
    exact ⟨hnames.nodup, hdeps, heager, h⟩
  rw [outcome]
  by_cases hlength : last.order.length = builder.children.length
  · rw [if_neg (not_not.mpr hlength)]
    have hperm := hinv.order_perm hlength
    refine ⟨⟨fun _ => hcompiles.mp hlength, fun _ => ⟨_, rfl⟩⟩, ?_, ?_, ?_, nofun, nofun⟩
    · rintro _ ⟨⟩
      exact hperm
    · rintro _ ⟨⟩
      exact hinv.greedy.respects
    · rintro _ ⟨⟩ order horder hrespects
      exact hinv.greedy.least hrespects (horder.trans hperm.symm)
  · rw [if_pos hlength]
    refine ⟨⟨nofun, fun h => absurd (hcompiles.mpr h) hlength⟩, nofun, nofun, nofun, ?_, ?_⟩
    · rintro _ ⟨⟩
      exact sorted_remaining hnames.nodup last.indeg
    · rintro _ ⟨⟩ n
      exact hinv.mem_remaining_iff hnames hknown hready

/-- Compiling a supervisor ends.  It succeeds exactly when the names are unique,
the dependencies exist, no child that starts at once waits for a deferred one and
there is no cycle; the start order is then the least order that respects the
dependencies, and a reported cycle lists the children that a cycle holds back. -/
theorem new_canonical (builder : SupervisorBuilder ν) :
    ∃ result, new builder = some result ∧ Canonical builder result := by
  have hempty : Represents (fun _ : ν => none) ([] : List (ChildSpec ν)) := by
    intro n i
    simp
  have hspec := nameToIdx_spec builder.children hempty
  cases hok : nameToIdx builder.children 0 (fun _ => none) with
  | error e =>
    obtain ⟨hdup, name, rfl⟩ := hok ▸ hspec
    exact ⟨_, by rw [new, hok], .of_rejected (fun h => hdup h.unique) (by simp)⟩
  | ok names =>
    have hnames : Represents names builder.children := (hok ▸ hspec :)
    have hnone : Linked names (needs ([] : List (ChildSpec ν))) ⟨fun _ => 0, fun _ => []⟩ := by
      refine ⟨fun i => ?_, fun j => nodup_nil, fun j i => ?_⟩
      · simp [needs]
      · simp [needs]
    generalize hresult : linkChildren builder.children names builder.children 0
      ⟨fun _ => 0, fun _ => []⟩ = result
    have hlink := hresult ▸ linkChildren_spec hnames hnone
    cases hlink with
    | error hbad he =>
      obtain ⟨c, hc, n, hn, hnot⟩ := hbad
      refine ⟨_, by rw [new, hok]; dsimp only; rw [hresult], .of_rejected (fun h => ?_) he⟩
      exact hnot ((forall_fits_iff hnames).mpr ⟨h.known, h.eager⟩ c hc n hn)
    | ok hgood =>
      obtain ⟨hlinked, hfits⟩ := hgood
      have hknown : ∀ i, ∀ n ∈ needs builder.children i, (names n).isSome := by
        intro i n hn
        obtain ⟨c, hc, hmem⟩ := mem_needs.mp hn
        obtain ⟨j, hj, -⟩ := hfits c (mem_of_getElem? hc) n hmem
        rw [hj, isSome_some]
      obtain ⟨last, hinv, hready, hnew⟩ := new_eq_of_linked hok hresult hnames hlinked hknown
      exact ⟨_, hnew, .of_loop hnames hfits hknown hinv hready⟩

end CompiledSupervisor

end Asupersync
