import Mathlib.Data.List.Basic
import Mathlib.Order.Nat

/-!
# Union-find with decreasing parents

A forest of parent pointers in which no element points to a larger one, so that
the root of a tree is its smallest element.

**Algorithm.**  `find` follows the pointers to the root and then redirects every
element on the way to it (path compression).  Two roots are linked by pointing the
larger one to the smaller one.

**Results.**
* `find_eq`: `find` returns, and compression changes no root.
* `root_link`, `root_push`: the roots after a link and after a new element.
* `rootCount_link`: a link takes one root away.
-/

namespace Asupersync.Lib.UnionFind

open List

/-- No element points to a larger one. -/
def Decreasing (parent : List Nat) : Prop := ∀ i p : Nat, parent[i]? = some p → p ≤ i

/-- Follow the pointers up to a root; nothing if an element is missing. -/
def rootLoop (parent : List Nat) : Nat → Nat → Option Nat
  | 0, _ => none
  | fuel + 1, i =>
    match parent[i]? with
    | none => none
    | some p => if p = i then some i else rootLoop parent fuel p

/-- Redirect the elements on the way to the root. -/
def compressLoop (root : Nat) : Nat → List Nat → Nat → Option (List Nat)
  | 0, _, _ => none
  | fuel + 1, parent, i =>
    match parent[i]? with
    | none => none
    | some p => if p = root then some parent else compressLoop root fuel (parent.set i root) p

/-- The root of an element, and the compressed forest. -/
def find (parent : List Nat) (i : Nat) : Option (Nat × List Nat) :=
  match rootLoop parent (parent.length + 1) i with
  | none => none
  | some root =>
    match compressLoop root (parent.length + 1) parent i with
    | none => none
    | some parent' => some (root, parent')

/-- The root of an element; an element that is missing is its own. -/
def root (parent : List Nat) (i : Nat) : Nat := (rootLoop parent (i + 1) i).getD i

/-- An element that points to itself. -/
def IsRoot (parent : List Nat) (r : Nat) : Prop := parent[r]? = some r

instance (parent : List Nat) (r : Nat) : Decidable (IsRoot parent r) :=
  inferInstanceAs (Decidable (parent[r]? = some r))

section Roots

variable {parent : List Nat}

variable {i : Nat}

/-- Induction from parents to children. -/
theorem parent_induction (hdec : Decreasing parent)
    {motive : (i : Nat) → i < parent.length → Prop}
    (hroot : ∀ r hr, IsRoot parent r → motive r hr)
    (hchild : ∀ i p hi hp, parent[i]? = some p → p < i → motive p hp → motive i hi) (i : Nat)
    (hi : i < parent.length) : motive i hi := by
  induction i using Nat.strongRecOn with
  | _ i ih =>
    have hget : parent[i]? = some parent[i] := getElem?_eq_getElem hi
    have hle : parent[i] ≤ i := hdec i _ hget
    by_cases heq : parent[i] = i
    · refine hroot i hi ?_
      unfold IsRoot
      rw [hget, heq]
    · have hlt : parent[i] < i := by omega
      exact hchild i _ hi (hlt.trans hi) hget hlt (ih _ hlt (hlt.trans hi))

theorem exists_rootLoop (hdec : Decreasing parent) (hi : i < parent.length) :
    ∃ r, ∀ fuel, i < fuel → rootLoop parent fuel i = some r := by
  induction i, hi using parent_induction hdec with
  | hroot r _ h =>
    refine ⟨r, fun fuel hfuel => ?_⟩
    obtain ⟨fuel, rfl⟩ := Nat.exists_eq_add_one_of_ne_zero (Nat.ne_zero_of_lt hfuel)
    rw [rootLoop, h]
    exact if_pos rfl
  | hchild i p _ _ h hlt ih =>
    obtain ⟨r, hr⟩ := ih
    refine ⟨r, fun fuel hfuel => ?_⟩
    obtain ⟨fuel, rfl⟩ := Nat.exists_eq_add_one_of_ne_zero (Nat.ne_zero_of_lt hfuel)
    simp only [rootLoop, h, if_neg hlt.ne]
    exact hr fuel (by omega)

theorem rootLoop_eq (hdec : Decreasing parent) {fuel : Nat} (hi : i < parent.length)
    (hfuel : i < fuel) : rootLoop parent fuel i = some (root parent i) := by
  obtain ⟨r, hr⟩ := exists_rootLoop hdec hi
  unfold root
  rw [hr fuel hfuel, hr (i + 1) (Nat.lt_succ_self i), Option.getD_some]

theorem root_of_length_le (hi : parent.length ≤ i) : root parent i = i := by
  unfold root rootLoop
  rw [getElem?_eq_none hi]
  rfl

theorem root_of_isRoot {r : Nat} (h : IsRoot parent r) : root parent r = r := by
  unfold root rootLoop
  rw [h]
  simp

variable (hdec : Decreasing parent)

include hdec

theorem root_of_parent {p : Nat} (h : parent[i]? = some p)
    (hne : p ≠ i) : root parent i = root parent p := by
  have hi : i < parent.length := (List.getElem?_eq_some_iff.mp h).1
  have hle := hdec i p h
  have hroot := rootLoop_eq hdec hi (Nat.lt_succ_self i)
  simp only [rootLoop, h, if_neg hne] at hroot
  rw [rootLoop_eq hdec (by omega) (by omega)] at hroot
  exact (Option.some.inj hroot).symm

theorem isRoot_root (hi : i < parent.length) : IsRoot parent (root parent i) := by
  induction i, hi using parent_induction hdec with
  | hroot r _ h =>
    rw [root_of_isRoot h]
    exact h
  | hchild i p _ _ h hlt ih =>
    rw [root_of_parent hdec h hlt.ne]
    exact ih

theorem root_le (i : Nat) : root parent i ≤ i := by
  rcases Nat.lt_or_ge i parent.length with hi | hi
  · induction i, hi using parent_induction hdec with
    | hroot r _ h => exact (root_of_isRoot h).le
    | hchild i p _ _ h hlt ih =>
      rw [root_of_parent hdec h hlt.ne]
      exact ih.trans hlt.le
  · exact (root_of_length_le hi).le

theorem root_root (i : Nat) : root parent (root parent i) = root parent i := by
  rcases Nat.lt_or_ge i parent.length with hi | hi
  · exact root_of_isRoot (isRoot_root hdec hi)
  · rw [root_of_length_le hi, root_of_length_le hi]

theorem root_lt (hi : i < parent.length) : root parent i < parent.length :=
  Nat.lt_of_le_of_lt (root_le hdec i) hi

theorem isRoot_iff (hi : i < parent.length) : IsRoot parent i ↔ root parent i = i := by
  constructor
  · exact root_of_isRoot
  · intro h
    rw [← h]
    exact isRoot_root hdec hi

end Roots

/-! ## Redirecting an element -/

section Redirect

variable {parent : List Nat}

variable {i p : Nat}

section

variable (hdec : Decreasing parent)

include hdec

theorem decreasing_set (h : p ≤ i) : Decreasing (parent.set i p) := by
  intro j q hq
  rw [getElem?_set] at hq
  split at hq
  · split at hq
    · cases hq
      omega
    · cases hq
  · exact hdec j q hq

/-- Pointing an element to its root changes no root. -/
theorem root_set_root (hi : i < parent.length) (hne : root parent i ≠ i) (j : Nat) :
    root (parent.set i (root parent i)) j = root parent j := by
  have hdec' : Decreasing (parent.set i (root parent i)) :=
    decreasing_set hdec (root_le hdec i)
  have hroots (r : Nat) (h : IsRoot parent r) : IsRoot (parent.set i (root parent i)) r := by
    unfold IsRoot
    rw [getElem?_set_ne, h]
    rintro rfl
    exact hne (root_of_isRoot h)
  rcases Nat.lt_or_ge j parent.length with hj | hj
  · induction j, hj using parent_induction hdec with
    | hroot r _ h => rw [root_of_isRoot (hroots r h), root_of_isRoot h]
    | hchild j p _ _ h hlt ih =>
      rw [root_of_parent hdec h hlt.ne]
      by_cases hij : j = i
      · subst hij
        rw [root_of_parent hdec' (getElem?_set_self hi) hne,
          root_of_isRoot (hroots _ (isRoot_root hdec hi)), root_of_parent hdec h hlt.ne]
      · rw [root_of_parent hdec' ((getElem?_set_ne (Ne.symm hij)).trans h) hlt.ne, ih]
  · rw [root_of_length_le hj, root_of_length_le (by simpa using hj)]

/-- A root that is pointed to a smaller root takes its tree along. -/
theorem root_link {winner loser : Nat} (hwinner : IsRoot parent winner)
    (hloser : IsRoot parent loser) (hlt : winner < loser) (j : Nat) :
    root (parent.set loser winner) j = if root parent j = loser then winner else root parent j := by
  have hlength : loser < parent.length := (List.getElem?_eq_some_iff.mp hloser).1
  have hdec' : Decreasing (parent.set loser winner) := decreasing_set hdec hlt.le
  have hroots (r : Nat) (h : IsRoot parent r) (hne : r ≠ loser) :
      IsRoot (parent.set loser winner) r := (getElem?_set_ne hne.symm).trans h
  have hloser' : root (parent.set loser winner) loser = winner := by
    rw [root_of_parent hdec' (getElem?_set_self hlength) hlt.ne,
      root_of_isRoot (hroots winner hwinner hlt.ne)]
  rcases Nat.lt_or_ge j parent.length with hj | hj
  · induction j, hj using parent_induction hdec with
    | hroot r _ h =>
      rw [root_of_isRoot h]
      split_ifs with hr
      · rw [hr, hloser']
      · rw [root_of_isRoot (hroots r h hr)]
    | hchild j p _ _ h hpj ih =>
      have hne : j ≠ loser := by
        rintro rfl
        exact hpj.ne (Option.some.inj (h.symm.trans hloser))
      rw [root_of_parent hdec' ((getElem?_set_ne hne.symm).trans h) hpj.ne, ih,
        root_of_parent hdec h hpj.ne]
  · rw [root_of_length_le hj, root_of_length_le (by simpa using hj), if_neg (by omega)]

theorem decreasing_push : Decreasing (parent ++ [parent.length]) := by
  intro i p h
  rw [getElem?_append] at h
  split at h
  · exact hdec i p h
  · have hmem := mem_of_getElem? h
    rw [mem_singleton.mp hmem]
    omega

/-- A new element is its own root. -/
theorem root_push (j : Nat) : root (parent ++ [parent.length]) j = root parent j := by
  have hdec' := decreasing_push hdec
  have hold {i : Nat} (hi : i < parent.length) :
      (parent ++ [parent.length])[i]? = parent[i]? := getElem?_append_left hi
  rcases Nat.lt_or_ge j parent.length with hj | hj
  · induction j, hj using parent_induction hdec with
    | hroot r hr h => rw [root_of_isRoot ((hold hr).trans h), root_of_isRoot h]
    | hchild j p hj _ h hlt ih =>
      rw [root_of_parent hdec' ((hold hj).trans h) hlt.ne, ih, root_of_parent hdec h hlt.ne]
  · rw [root_of_length_le hj]
    rcases Nat.eq_or_lt_of_le hj with heq | hlt
    · refine root_of_isRoot ?_
      unfold IsRoot
      simp [← heq]
    · refine root_of_length_le ?_
      rw [length_append, length_singleton]
      omega

end

/-! ## Find -/

/-- A forest with the same roots. -/
structure SameRoots (parent parent' : List Nat) : Prop where
  length_eq : parent'.length = parent.length
  decreasing : Decreasing parent'
  root_eq : ∀ j, root parent' j = root parent j

theorem SameRoots.refl (hdec : Decreasing parent) : SameRoots parent parent :=
  ⟨rfl, hdec, fun _ => rfl⟩

theorem SameRoots.trans {p q r : List Nat} (h : SameRoots p q) (h' : SameRoots q r) :
    SameRoots p r :=
  ⟨h'.length_eq.trans h.length_eq, h'.decreasing, fun j => (h'.root_eq j).trans (h.root_eq j)⟩

theorem compressLoop_eq (hdec : Decreasing parent) {fuel : Nat} (hi : i < parent.length)
    (hfuel : i < fuel) :
    ∃ parent', compressLoop (root parent i) fuel parent i = some parent' ∧
      SameRoots parent parent' := by
  induction fuel generalizing parent i with
  | zero => omega
  | succ fuel ih =>
    have hget : parent[i]? = some parent[i] := getElem?_eq_getElem hi
    simp only [compressLoop, hget]
    split_ifs with hdone
    · exact ⟨parent, rfl, .refl hdec⟩
    -- The element is not a root, since its parent would then be the root.
    have hne : parent[i] ≠ i := by
      intro heq
      have hroot : IsRoot parent i := by
        unfold IsRoot
        rw [hget, heq]
      exact hdone (heq.trans (root_of_isRoot hroot).symm)
    have hle : parent[i] ≤ i := hdec i _ hget
    have hroot : root parent i = root parent parent[i] := root_of_parent hdec hget hne
    have hroot_ne : root parent i ≠ i := by
      have hroot_le := root_le hdec parent[i]
      omega
    have hset : SameRoots parent (parent.set i (root parent i)) :=
      ⟨length_set, decreasing_set hdec (root_le hdec i), root_set_root hdec hi hroot_ne⟩
    obtain ⟨parent', hloop, hsame⟩ := ih hset.decreasing (i := parent[i])
      (by rw [hset.length_eq]; omega) (by omega)
    rw [hset.root_eq, ← hroot] at hloop
    exact ⟨parent', hloop, hset.trans hsame⟩

/-- `find` returns the root and changes no root. -/
theorem find_eq (hdec : Decreasing parent) (hi : i < parent.length) :
    ∃ parent', find parent i = some (root parent i, parent') ∧ SameRoots parent parent' := by
  obtain ⟨parent', hloop, hsame⟩ :=
    compressLoop_eq hdec hi (Nat.lt_succ_of_lt hi)
  refine ⟨parent', ?_, hsame⟩
  unfold find
  rw [rootLoop_eq hdec hi (Nat.lt_succ_of_lt hi)]
  simp only [hloop]

/-! ## The number of roots -/

/-- How many roots the forest has. -/
def rootCount (parent : List Nat) : Nat :=
  (List.range parent.length).countP (fun i => root parent i = i)

theorem SameRoots.rootCount_eq {parent' : List Nat} (h : SameRoots parent parent') :
    rootCount parent' = rootCount parent := by
  unfold rootCount
  rw [h.length_eq]
  simp only [h.root_eq]

theorem rootCount_link (hdec : Decreasing parent) {winner loser : Nat}
    (hwinner : IsRoot parent winner) (hloser : IsRoot parent loser) (hlt : winner < loser) :
    rootCount (parent.set loser winner) < rootCount parent := by
  have hlength : loser < parent.length := (List.getElem?_eq_some_iff.mp hloser).1
  have hmono (i : Nat) (h : root (parent.set loser winner) i = i) : root parent i = i := by
    rw [root_link hdec hwinner hloser hlt] at h
    split at h
    · rw [← h]
      exact root_of_isRoot hwinner
    · exact h
  have hlost : root (parent.set loser winner) loser ≠ loser := by
    rw [root_link hdec hwinner hloser hlt, if_pos (root_of_isRoot hloser)]
    exact hlt.ne
  have hcount (l : List Nat) : l.countP (fun i => root (parent.set loser winner) i = i) ≤
      l.countP (fun i => root parent i = i) :=
    countP_mono_left (fun i _ h => decide_eq_true (hmono i (of_decide_eq_true h)))
  obtain ⟨below, above, hsplit⟩ := append_of_mem (mem_range.mpr hlength)
  unfold rootCount
  rw [length_set, hsplit, countP_append, countP_append, countP_cons_of_neg (by simpa using hlost),
    countP_cons_of_pos (by simpa using root_of_isRoot hloser)]
  have hbelow := hcount below
  have habove := hcount above
  omega

end Redirect

end Asupersync.Lib.UnionFind
