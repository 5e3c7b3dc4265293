import Asupersync.Types.Basic
import Mathlib.Data.List.Nodup
import Mathlib.Data.List.Perm.Subperm

/-!
# The generational arena

The slot vector of regions, tasks and obligations: an index pairs a slot with the
generation it was issued for, removal bumps the generation and puts the slot on an
intrusive free list, and a slot whose generation is exhausted is retired.

**Results.**  Seen through `get`, an arena is a finite map: `get_insertWith`,
`get_remove` and `get_modify` say what each operation does to it.  An index that
was removed is `Stale`: it stays absent and is never issued again
(`insertWith_spec`, `remove_spec`).

The source's `len` counter takes no part in these operations and is left out.  An
insertion that panics is `none`.
-/

namespace Asupersync

open List Option

universe u

inductive Slot (α : Type u) where
  | occupied (value : α) (generation : UInt32)
  | vacant (nextFree : Option UInt32) (generation : UInt32)

structure Arena (α : Type u) where
  slots : List (Slot α)
  freeHead : Option UInt32

namespace Arena

variable {α : Type u}

def new : Arena α := { slots := [], freeHead := none }

def slot (a : Arena α) (index : UInt32) : Option (Slot α) := a.slots[index.toNat]?

def get (a : Arena α) (i : ArenaIndex) : Option α :=
  match a.slot i.index with
  | some (.occupied value generation) => if generation = i.generation then some value else none
  | _ => none

/-- A changed record under an unchanged index, as through `get_mut`. -/
def modify (a : Arena α) (i : ArenaIndex) (f : α → α) : Arena α :=
  match a.slot i.index with
  | some (.occupied value generation) =>
    if generation = i.generation then
      { a with slots := a.slots.set i.index.toNat (.occupied (f value) generation) }
    else a
  | _ => a

/-- Takes the head of the free list, or appends a slot. -/
def insertWith (a : Arena α) (f : ArenaIndex → α) : Option (ArenaIndex × Arena α) :=
  match a.freeHead with
  | some free =>
    match a.slot free with
    | some (.vacant next generation) =>
      let i : ArenaIndex := ⟨free, generation⟩
      some (i,
        { slots := a.slots.set free.toNat (.occupied (f i) generation), freeHead := next })
    | _ => none
  | none =>
    if a.slots.length ≤ u32Max then
      let i : ArenaIndex := ⟨UInt32.ofNat a.slots.length, 0⟩
      some (i, { a with slots := a.slots ++ [.occupied (f i) 0] })
    else none

def remove (a : Arena α) (i : ArenaIndex) : Option (α × Arena α) :=
  match a.slot i.index with
  | some (.occupied value generation) =>
    if generation = i.generation then
      -- a slot at the last generation is retired: it leaves the free list for good
      let retireSlot := generation.toNat = u32Max
      some (value,
        { slots := a.slots.set i.index.toNat
            (.vacant (if retireSlot then none else a.freeHead) (generation + 1))
          freeHead := if retireSlot then a.freeHead else some i.index })
    else none
  | _ => none

/-- The records in slot order. -/
def iter (a : Arena α) : List (ArenaIndex × α) :=
  a.slots.zipIdx.filterMap fun
    | (.occupied value generation, index) => some (⟨UInt32.ofNat index, generation⟩, value)
    | (.vacant _ _, _) => none

/-- How many records satisfy a predicate. -/
def count (a : Arena α) (p : α → Bool) : Nat :=
  a.slots.countP fun
    | .occupied value _ => p value
    | .vacant _ _ => false

/-- The slots on the free list that starts at a slot. -/
inductive FreeList (slots : List (Slot α)) : Option UInt32 → List UInt32 → Prop
  | nil : FreeList slots none []
  | cons {index : UInt32} {next : Option UInt32} {generation : UInt32} {rest : List UInt32} :
      slots[index.toNat]? = some (.vacant next generation) → index ∉ rest →
      FreeList slots next rest → FreeList slots (some index) (index :: rest)

/-- The free list is intact and every slot can be indexed. -/
structure WellFormed (a : Arena α) : Prop where
  size : a.slots.length ≤ u32Max + 1
  free : ∃ list, FreeList a.slots a.freeHead list

/-- An index that was issued and removed: its slot has moved on to a later generation
or has left the free list. -/
inductive Stale (a : Arena α) (i : ArenaIndex) : Prop
  | reused {value : α} {generation : UInt32} :
      a.slot i.index = some (.occupied value generation) → i.generation < generation →
      Stale a i
  | freed {next : Option UInt32} {generation : UInt32} {list : List UInt32} :
      a.slot i.index = some (.vacant next generation) → FreeList a.slots a.freeHead list →
      (i.index ∈ list → i.generation < generation) → Stale a i

theorem new_wellFormed : (new : Arena α).WellFormed :=
  ⟨Nat.zero_le _, [], .nil⟩

section FreeList

variable {slots : List (Slot α)} {head : Option UInt32} {list : List UInt32}

variable (h : FreeList slots head list) {index : UInt32}

include h

theorem FreeList.vacant :
    ∀ index ∈ list, ∃ next generation, slots[index.toNat]? = some (.vacant next generation) := by
  induction h with
  | nil => exact nofun
  | cons hslot _ _ ih =>
    intro index hmem
    rcases mem_cons.mp hmem with rfl | hmem
    · exact ⟨_, _, hslot⟩
    · exact ih index hmem

/-- Writing outside the free list keeps it. -/
theorem FreeList.set {s : Slot α} (hout : index ∉ list) :
    FreeList (slots.set index.toNat s) head list := by
  induction h with
  | nil => exact .nil
  | @cons first next generation rest hslot hfresh _ ih =>
    have hne : index ≠ first := fun heq => hout (heq ▸ mem_cons_self)
    have hnat : index.toNat ≠ first.toNat := fun heq => hne (UInt32.toNat_inj.mp heq)
    have hkept : (slots.set index.toNat s)[first.toNat]? = _ :=
      (getElem?_set_ne hnat).trans hslot
    exact .cons hkept hfresh (ih fun hmem => hout (mem_cons_of_mem _ hmem))

/-- An occupied slot is not on the free list. -/
theorem FreeList.not_mem_of_occupied
    {value : α} {generation : UInt32} (hslot : slots[index.toNat]? = some (.occupied value generation)) :
    index ∉ list := by
  intro hmem
  obtain ⟨next, generation', hvacant⟩ := h.vacant index hmem
  rw [hslot] at hvacant
  cases hvacant

end FreeList

theorem slot_set (a : Arena α) (head : Option UInt32) (index j : UInt32) (s : Slot α) :
    slot { slots := a.slots.set index.toNat s, freeHead := head } j =
      if j = index then (a.slot index).map fun _ => s else a.slot j := by
  unfold slot
  split_ifs with h
  · rw [h, getElem?_set_self']
    rfl
  · have hnat : index.toNat ≠ j.toNat := fun heq => h (UInt32.toNat_inj.mp heq.symm)
    rw [getElem?_set_ne hnat]

/-- The one slot of an index decides what `get` returns. -/
theorem get_eq_some_iff (a : Arena α) (i : ArenaIndex) (value : α) :
    a.get i = some value ↔ a.slot i.index = some (.occupied value i.generation) := by
  unfold get
  rcases h : a.slot i.index with _ | ⟨v, g⟩ | ⟨next, g⟩
  · simp
  · by_cases hg : g = i.generation
    · simp [hg]
    · simp [hg]
  · simp

variable {a b : Arena α} {i j : ArenaIndex}

theorem get_of_slot_eq (h : b.slot i.index = a.slot i.index) : b.get i = a.get i := by
  unfold get
  rw [h]

theorem index_eq_of_ne (hne : j ≠ i) (h : j.index = i.index) : j.generation ≠ i.generation := by
  intro hg
  obtain ⟨x, g⟩ := i
  cases h
  cases hg
  exact hne rfl

variable {value : α}

/-- Writing the slot of `i` with its own generation changes `get` at `i` only. -/
theorem get_write (hb : ∀ j, b.slot j = if j = i.index then some (.occupied value i.generation) else a.slot j)
    (hother : ∀ j, j ≠ i → j.index = i.index → a.get j = none) (j : ArenaIndex) :
    b.get j = if j = i then some value else a.get j := by
  split_ifs with hj
  · rw [hj, get_eq_some_iff, hb, if_pos rfl]
  · by_cases hindex : j.index = i.index
    · rw [hother j hj hindex]
      unfold get
      rw [hb, if_pos hindex]
      exact if_neg (index_eq_of_ne hj hindex).symm
    · exact get_of_slot_eq (by rw [hb, if_neg hindex])

theorem get_none_of_live (hi : a.get i = some value)
    (j : ArenaIndex) (hne : j ≠ i) (hindex : j.index = i.index) :
    a.get j = none := by
  unfold get
  rw [hindex, (get_eq_some_iff a i value).mp hi]
  exact if_neg (index_eq_of_ne hne hindex).symm

/-- Freeing the slot of `i` changes `get` at `i` only. -/
theorem get_free {next : Option UInt32} {generation : UInt32} (hi : a.get i = some value)
    (hb : ∀ j, b.slot j = if j = i.index then some (.vacant next generation) else a.slot j)
    (j : ArenaIndex) : b.get j = if j = i then none else a.get j := by
  by_cases hindex : j.index = i.index
  · have hnone : b.get j = none := by
      unfold get
      rw [hb, if_pos hindex]
    rw [hnone]
    split_ifs with hj
    · rfl
    · exact (get_none_of_live hi j hj hindex).symm
  · rw [if_neg fun hj => hindex (by rw [hj])]
    exact get_of_slot_eq (by rw [hb, if_neg hindex])

theorem get_none_of_stale (h : a.Stale i) : a.get i = none := by
  unfold get
  cases h with
  | reused hslot hlt =>
    rw [hslot]
    exact if_neg (UInt32.ne_of_lt hlt).symm
  | freed hslot _ _ => rw [hslot]

/-- A change of one slot leaves the stale indices of the others stale. -/
theorem Stale.other {x : UInt32} (h : a.Stale j) (hj : j.index ≠ x)
    (hslot : ∀ k, k ≠ x → b.slot k = a.slot k)
    (hfree : ∀ list, FreeList a.slots a.freeHead list →
      ∃ list', FreeList b.slots b.freeHead list' ∧ ∀ k, k ≠ x → k ∈ list' → k ∈ list) :
    b.Stale j := by
  cases h with
  | reused hold hlt => exact .reused ((hslot _ hj).trans hold) hlt
  | freed hold hlist hgen =>
    obtain ⟨list', hlist', hsub⟩ := hfree _ hlist
    exact .freed ((hslot _ hj).trans hold) hlist' fun hmem => hgen (hsub _ hj hmem)

section Modify

variable {a : Arena α} {i : ArenaIndex} {f : α → α}

theorem modify_of_get {value : α} (h : a.get i = some value) :
    a.modify i f =
      { a with slots := a.slots.set i.index.toNat (.occupied (f value) i.generation) } := by
  have hslot := (get_eq_some_iff a i value).mp h
  simp [modify, hslot]

theorem modify_of_absent (h : a.get i = none) : a.modify i f = a := by
  unfold get at h
  unfold modify
  rcases hslot : a.slot i.index with _ | ⟨v, g⟩ | ⟨next, g⟩
  · rfl
  · rw [hslot] at h
    by_cases hg : g = i.generation
    · simp [hg] at h
    · simp [hg]
  · rfl

theorem get_modify (a : Arena α) (i j : ArenaIndex) (f : α → α) :
    (a.modify i f).get j = if j = i then (a.get i).map f else a.get j := by
  cases h : a.get i with
  | none =>
    rw [modify_of_absent h]
    split_ifs with hj
    · rw [hj, h]
      rfl
    · rfl
  | some value =>
    rw [modify_of_get h]
    have hslot := (get_eq_some_iff a i value).mp h
    refine get_write (fun k => ?_) (get_none_of_live h) j
    rw [slot_set, hslot]
    rfl

/-- Only the value at the live record matters. -/
theorem modify_congr {g : α → α} (h : ∀ value, a.get i = some value → f value = g value) :
    a.modify i f = a.modify i g := by
  cases hget : a.get i with
  | none => rw [modify_of_absent hget, modify_of_absent hget]
  | some value => rw [modify_of_get hget, modify_of_get hget, h value hget]

theorem modify_eq_self (h : ∀ value, a.get i = some value → f value = value) :
    a.modify i f = a := by
  cases hget : a.get i with
  | none => exact modify_of_absent hget
  | some value =>
    have hslot : a.slots[i.index.toNat]? = some (.occupied value i.generation) :=
      (get_eq_some_iff a i value).mp hget
    obtain ⟨hlt, heq⟩ := List.getElem?_eq_some_iff.mp hslot
    rw [modify_of_get hget, h value hget, ← heq, set_getElem_self hlt]

theorem modify_modify (g : α → α) : (a.modify i f).modify i g = a.modify i (g ∘ f) := by
  cases hget : a.get i with
  | none => rw [modify_of_absent hget, modify_of_absent hget, modify_of_absent hget]
  | some value =>
    have hnext : (a.modify i f).get i = some (f value) := by
      rw [get_modify, if_pos rfl, hget]
      rfl
    rw [modify_of_get hnext, modify_of_get hget, modify_of_get hget, set_set]
    rfl

theorem modify_wellFormed (h : a.WellFormed) : (a.modify i f).WellFormed := by
  cases hget : a.get i with
  | none => rwa [modify_of_absent hget]
  | some value =>
    rw [modify_of_get hget]
    obtain ⟨list, hlist⟩ := h.free
    have hslot := (get_eq_some_iff a i value).mp hget
    refine ⟨by simpa using h.size, list, hlist.set (hlist.not_mem_of_occupied hslot)⟩

theorem modify_stale (h : a.Stale j) : (a.modify i f).Stale j := by
  cases hget : a.get i with
  | none => rwa [modify_of_absent hget]
  | some value =>
    rw [modify_of_get hget]
    have hslot := (get_eq_some_iff a i value).mp hget
    by_cases hindex : j.index = i.index
    · cases h with
      | reused hj hlt =>
        cases hslot.symm.trans (hindex ▸ hj)
        exact .reused (by rw [slot_set, if_pos hindex, hslot]; rfl) hlt
      | freed hj _ _ => cases hslot.symm.trans (hindex ▸ hj)
    · refine h.other hindex (fun k hk => ?_) fun list hlist =>
        ⟨list, hlist.set (hlist.not_mem_of_occupied hslot), fun _ _ hmem => hmem⟩
      rw [slot_set, if_neg hk]

end Modify

/-- What an insertion does. -/
structure Inserted (a : Arena α) (f : ArenaIndex → α) (i : ArenaIndex) (b : Arena α) : Prop where
  wellFormed : b.WellFormed
  absent : a.get i = none
  fresh : ¬ a.Stale i
  get : ∀ j, b.get j = if j = i then some (f i) else a.get j
  stale : ∀ j, a.Stale j → b.Stale j

variable {f : ArenaIndex → α}

/-- An insertion writes one slot: the head of the free list, or a new one at the end. -/
theorem insertWith_cases (h : a.insertWith f = some (i, b)) :
    (∀ j, b.slot j = if j = i.index then some (.occupied (f i) i.generation) else a.slot j) ∧
      ((∃ next, a.freeHead = some i.index ∧ a.slot i.index = some (.vacant next i.generation) ∧
          b = { slots := a.slots.set i.index.toNat (.occupied (f i) i.generation)
                freeHead := next }) ∨
        a.freeHead = none ∧ a.slot i.index = none ∧ a.slots.length ≤ u32Max ∧
          b = { a with slots := a.slots ++ [.occupied (f i) i.generation] }) := by
  unfold insertWith at h
  split at h
  · rename_i free hhead
    split at h
    · rename_i next generation hslot
      cases h
      refine ⟨fun j => ?_, .inl ⟨next, hhead, hslot, rfl⟩⟩
      rw [slot_set, hslot]
      rfl
    · cases h
  · rename_i hhead
    split at h
    · rename_i hsize
      cases h
      have hnat : (UInt32.ofNat a.slots.length).toNat = a.slots.length :=
        UInt32.toNat_ofNat_of_lt' (Nat.lt_succ_of_le hsize)
      refine ⟨fun j => ?_, .inr ⟨hhead, ?_, hsize, rfl⟩⟩
      · have hj : j = UInt32.ofNat a.slots.length ↔ j.toNat = a.slots.length := by
          rw [← UInt32.toNat_inj, hnat]
        unfold slot
        grind
      · unfold slot
        rw [hnat]
        exact getElem?_eq_none le_rfl
    · cases h

/-- The slot is the head of the free list, if there is one. -/
theorem FreeList.insertWith {list : List UInt32} (hlist : FreeList a.slots a.freeHead list)
    (h : a.insertWith f = some (i, b)) : FreeList b.slots b.freeHead list.tail := by
  obtain ⟨-, ⟨next, hhead, hslot, rfl⟩ | ⟨hhead, -, -, rfl⟩⟩ := insertWith_cases h
  · rw [hhead] at hlist
    cases hlist with
    | cons hslot' hfresh hrest =>
      cases hslot.symm.trans hslot'
      exact hrest.set hfresh
  · rw [hhead] at hlist ⊢
    cases hlist
    exact .nil

theorem insertWith_spec (hw : a.WellFormed) (h : a.insertWith f = some (i, b)) :
    Inserted a f i b := by
  obtain ⟨hwrite, hcase⟩ := insertWith_cases h
  have hget : ∀ j : ArenaIndex, j.index = i.index → a.get j = none := by
    intro j hj
    unfold get
    obtain ⟨next, -, hslot, -⟩ | ⟨-, hslot, -⟩ := hcase
    all_goals rw [hj, hslot]
  -- stale indices of that slot are older than the one that is issued
  have hstale : ∀ j, a.Stale j → j.index = i.index → j.generation < i.generation := by
    intro j hj hindex
    obtain ⟨next, hhead, hslot, -⟩ | ⟨-, hslot, -⟩ := hcase
    · cases hj with
      | reused hj _ => cases hslot.symm.trans (hindex ▸ hj)
      | freed hj hlist hgen =>
        cases hslot.symm.trans (hindex ▸ hj)
        rw [hhead] at hlist
        cases hlist
        exact hgen (hindex ▸ mem_cons_self)
    · cases hj with
      | reused hj _ | freed hj _ _ => cases hslot.symm.trans (hindex ▸ hj)
  constructor
  case wellFormed =>
    obtain ⟨list, hlist⟩ := hw.free
    refine ⟨?_, _, hlist.insertWith h⟩
    obtain ⟨next, -, -, rfl⟩ | ⟨-, -, hsize, rfl⟩ := hcase
    · simpa using hw.size
    · simpa using hsize
  case absent => exact hget i rfl
  case fresh => exact fun hi => UInt32.lt_irrefl _ (hstale i hi rfl)
  case get => exact get_write hwrite fun j _ hj => hget j hj
  case stale =>
    intro j hj
    by_cases hindex : j.index = i.index
    · exact .reused (by rw [hwrite, if_pos hindex]) (hstale j hj hindex)
    · refine hj.other hindex (fun k hk => ?_) fun list hlist =>
        ⟨_, hlist.insertWith h, fun _ _ hmem => mem_of_mem_tail hmem⟩
      rw [hwrite, if_neg hk]

/-- What a removal does. -/
structure Removed (a : Arena α) (i : ArenaIndex) (value : α) (b : Arena α) : Prop where
  wellFormed : b.WellFormed
  present : a.get i = some value
  get : ∀ j, b.get j = if j = i then none else a.get j
  gone : b.Stale i
  stale : ∀ j, a.Stale j → b.Stale j

theorem lt_add_one_of_ne_max {g : UInt32} (h : g.toNat ≠ u32Max) : g < g + 1 := by
  have hbound : g.toNat < 2 ^ 32 := g.toNat_lt
  have hne : g.toNat ≠ 4294967295 := h
  rw [UInt32.lt_iff_toNat_lt, UInt32.toNat_add, UInt32.toNat_one]
  omega

theorem remove_of_get (h : a.get i = some value) :
    a.remove i = some (value,
      { slots := a.slots.set i.index.toNat
          (.vacant (if i.generation.toNat = u32Max then none else a.freeHead) (i.generation + 1))
        freeHead := if i.generation.toNat = u32Max then a.freeHead else some i.index }) := by
  have hslot := (get_eq_some_iff a i value).mp h
  simp [remove, hslot]

theorem remove_spec (hw : a.WellFormed) (hpresent : a.get i = some value) :
    ∃ b, a.remove i = some (value, b) ∧ Removed a i value b := by
  have hslot := (get_eq_some_iff a i value).mp hpresent
  obtain ⟨b, hremove⟩ : ∃ b, a.remove i = some (value, b) := ⟨_, remove_of_get hpresent⟩
  refine ⟨b, hremove, ?_⟩
  rw [remove_of_get hpresent] at hremove
  have hb := (Prod.mk.inj (some.inj hremove)).2.symm
  have hwrite : ∀ j, b.slot j = if j = i.index then
      some (.vacant (if i.generation.toNat = u32Max then none else a.freeHead)
        (i.generation + 1)) else a.slot j := by
    intro j
    rw [hb, slot_set, hslot]
    rfl
  -- the new free list: unchanged for a retired slot, with the slot in front otherwise
  have hfree : ∀ list, FreeList a.slots a.freeHead list →
      FreeList b.slots b.freeHead
        (if i.generation.toNat = u32Max then list else i.index :: list) := by
    intro list hlist
    have hout := hlist.not_mem_of_occupied hslot
    have hset := hlist.set (s := .vacant (if i.generation.toNat = u32Max then none
      else a.freeHead) (i.generation + 1)) hout
    rw [hb]
    by_cases hretire : i.generation.toNat = u32Max
    · simpa [hretire] using hset
    · simp only [hretire, if_false] at hset ⊢
      have hfirst := hwrite i.index
      rw [hb] at hfirst
      simp only [hretire, if_false] at hfirst
      exact .cons hfirst hout hset
  constructor
  case wellFormed =>
    obtain ⟨list, hlist⟩ := hw.free
    exact ⟨by rw [hb]; simpa using hw.size, _, hfree list hlist⟩
  case present => exact hpresent
  case get => exact get_free hpresent hwrite
  case gone =>
    obtain ⟨list, hlist⟩ := hw.free
    refine .freed (by rw [hwrite, if_pos rfl]) (hfree list hlist) fun hmem => ?_
    refine lt_add_one_of_ne_max fun hretire => ?_
    rw [if_pos hretire] at hmem
    exact hlist.not_mem_of_occupied hslot hmem
  case stale =>
    intro j hj
    by_cases hindex : j.index = i.index
    · cases hj with
      | reused hj hlt =>
        cases hslot.symm.trans (hindex ▸ hj)
        obtain ⟨list, hlist⟩ := hw.free
        refine .freed (by rw [hwrite, if_pos hindex]) (hfree list hlist) fun hmem => ?_
        refine UInt32.lt_trans hlt (lt_add_one_of_ne_max fun hretire => ?_)
        rw [if_pos hretire, hindex] at hmem
        exact hlist.not_mem_of_occupied hslot hmem
      | freed hj _ _ => cases hslot.symm.trans (hindex ▸ hj)
    · refine hj.other hindex (fun k hk => by rw [hwrite, if_neg hk]) fun list hlist =>
        ⟨_, hfree list hlist, fun k hk hmem => ?_⟩
      split at hmem
      · exact hmem
      · exact mem_of_ne_of_mem hk hmem

section Count

variable {a b : Arena α} {i : ArenaIndex} {f : α → α} {value : α} (p : α → Bool)

theorem count_le (a : Arena α) : a.count p ≤ a.slots.length := countP_le_length

/-- Writing a slot moves the count by what the old and the new content contribute. -/
theorem countP_set_add {β : Type u} (q : β → Bool) {l : List β} {n : Nat} {old : β}
    (hold : l[n]? = some old) (new : β) :
    (l.set n new).countP q + (if q old then 1 else 0) = l.countP q + if q new then 1 else 0 := by
  obtain ⟨hlt, hget⟩ := List.getElem?_eq_some_iff.mp hold
  have hpos : q old = true → 0 < l.countP q := fun hq =>
    countP_pos_iff.mpr ⟨old, mem_of_getElem? hold, hq⟩
  rw [countP_set hlt, hget]
  by_cases hq : q old = true
  · have := hpos hq
    simp only [hq, if_true]
    omega
  · simp only [hq]
    simp

theorem count_insertWith {g : ArenaIndex → α} (h : a.insertWith g = some (i, b)) :
    b.count p = a.count p + if p (g i) then 1 else 0 := by
  obtain ⟨-, ⟨next, -, hslot, rfl⟩ | ⟨-, -, -, rfl⟩⟩ := insertWith_cases h
  · have hset := countP_set_add
      (fun | .occupied value _ => p value | .vacant _ _ => false) (l := a.slots) hslot
    simpa [count] using hset _
  · simp [count, countP_append, countP_singleton]

theorem count_modify (h : a.get i = some value) :
    (a.modify i f).count p + (if p value then 1 else 0) =
      a.count p + if p (f value) then 1 else 0 := by
  rw [modify_of_get h]
  exact countP_set_add (fun | .occupied value _ => p value | .vacant _ _ => false)
    ((get_eq_some_iff a i value).mp h) (.occupied (f value) i.generation)

theorem count_modify_of_eq (h : ∀ value, a.get i = some value → p (f value) = p value) :
    (a.modify i f).count p = a.count p := by
  cases hget : a.get i with
  | none => rw [modify_of_absent hget]
  | some value =>
    have hcount := count_modify (f := f) p hget
    rw [h value hget] at hcount
    exact Nat.add_right_cancel hcount

/-- A record that is counted can be looked up. -/
theorem exists_get_of_count_pos (hw : a.WellFormed) (h : 0 < a.count p) :
    ∃ i value, a.get i = some value ∧ p value = true := by
  obtain ⟨slot, hmem, hp⟩ := countP_pos_iff.mp h
  obtain ⟨n, hlt, rfl⟩ := getElem_of_mem hmem
  cases hslot : a.slots[n] with
  | vacant next generation =>
    rw [hslot] at hp
    cases hp
  | occupied value generation =>
    have hnat : (UInt32.ofNat n).toNat = n :=
      UInt32.toNat_ofNat_of_lt' (Nat.lt_of_lt_of_le hlt hw.size)
    refine ⟨⟨UInt32.ofNat n, generation⟩, value, ?_, by simpa [hslot] using hp⟩
    rw [get_eq_some_iff, slot, hnat, getElem?_eq_getElem hlt, hslot]

theorem count_pos_of_get (h : a.get i = some value) (hp : p value = true) : 0 < a.count p :=
  countP_pos_iff.mpr ⟨_, mem_of_getElem? ((get_eq_some_iff a i value).mp h), hp⟩

theorem count_remove (hget : a.get i = some value) (h : a.remove i = some (value, b)) :
    b.count p + (if p value then 1 else 0) = a.count p := by
  rw [remove_of_get hget] at h
  obtain ⟨-, rfl⟩ := Prod.mk.inj (some.inj h)
  have hset := countP_set_add (fun | .occupied value _ => p value | .vacant _ _ => false)
    ((get_eq_some_iff a i value).mp hget)
    (.vacant (if i.generation.toNat = u32Max then none else a.freeHead) (i.generation + 1))
  simpa [count] using hset

/-- There are no more live indices than slots. -/
theorem length_le_of_live {ids : List ArenaIndex} (hnodup : ids.Nodup)
    (hlive : ∀ j ∈ ids, a.get j ≠ none) :
    ids.length ≤ a.slots.length := by
  have hinj : ∀ j ∈ ids, ∀ k ∈ ids, j.index.toNat = k.index.toNat → j = k := by
    intro j hj k hk hindex
    by_contra hne
    obtain ⟨value, hvalue⟩ := ne_none_iff_exists'.mp (hlive k hk)
    exact hlive j hj (get_none_of_live hvalue j hne (UInt32.toNat_inj.mp hindex))
  have hmapped : (ids.map (·.index.toNat)).Nodup := List.Nodup.map_on hinj hnodup
  have hbound : ∀ n ∈ ids.map (·.index.toNat), n ∈ List.range a.slots.length := by
    intro n hn
    obtain ⟨j, hj, rfl⟩ := List.mem_map.mp hn
    obtain ⟨value, hvalue⟩ := ne_none_iff_exists'.mp (hlive j hj)
    have hslot := (get_eq_some_iff a j value).mp hvalue
    exact mem_range.mpr (List.getElem?_eq_some_iff.mp hslot).1
  have hle := (hmapped.subperm hbound).length_le
  simpa using hle

end Count

end Arena

end Asupersync
