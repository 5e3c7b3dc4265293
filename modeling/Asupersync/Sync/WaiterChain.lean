import Asupersync.Lib.LinkedSlab
import Asupersync.Types.Basic
import Mathlib.Data.List.Nodup

/-!
# Waiter chains

The first-in-first-out queue of wakers behind the mutex and the read-write lock: a
linked list in a slab, with a map from the identity of a waiter to its slot.  The
identities are counted up and wrap; an identity that is still in the map is
skipped, one that has left it may be handed out again.

`WaiterChain.Holds` describes a chain by the list of its waiters, front first, and
there is one lemma for what each operation does to that list.
-/

namespace Asupersync

open Lib LinkedSlab List Option Function

structure WaiterSlot (T : Type) where
  id : Nat
  waker : Waker
  tag : T
deriving DecidableEq, Repr

/-- `positions` maps the identity of a waiter to its slot. -/
structure WaiterChain (T : Type) where
  list : LinkedSlab (WaiterSlot T)
  positions : Nat → Option Nat
  nextId : Nat

/-- The first identity from `id` on that is not in use. -/
def nextFreeId (positions : Nat → Option Nat) : (fuel : Nat) → (id : Nat) → Option Nat
  | 0, _ => none
  | fuel + 1, id =>
    if (positions id).isSome then nextFreeId positions fuel ((id + 1) % 2 ^ 64) else some id

namespace WaiterChain

variable {T : Type}

def new : WaiterChain T where
  list := .empty
  positions := fun _ => none
  nextId := 0

def isEmpty (c : WaiterChain T) : Bool := c.list.head.isNone

/-- The identity of the next waiter.  There is one more identity to try than slots. -/
def freshId (c : WaiterChain T) : Option Nat :=
  nextFreeId c.positions (c.list.slots.entries.length + 1) c.nextId

def pushBackTagged (c : WaiterChain T) (waker : Waker) (tag : T) : Option (WaiterChain T × Nat) := do
  let id ← c.freshId
  let (list, index) := c.list.pushBack { id := id, waker := waker, tag := tag }
  some ({ list := list
          positions := Function.update c.positions id (some index)
          nextId := (id + 1) % 2 ^ 64 }, id)

def pushFrontTagged (c : WaiterChain T) (waker : Waker) (tag : T) : Option (WaiterChain T × Nat) := do
  let id ← c.freshId
  let (list, index) := c.list.pushFront { id := id, waker := waker, tag := tag }
  some ({ list := list
          positions := Function.update c.positions id (some index)
          nextId := (id + 1) % 2 ^ 64 }, id)

def popFront (c : WaiterChain T) : Option (WaiterSlot T × WaiterChain T) := do
  let index ← c.list.head
  let link ← c.list.slots.get index
  some (link.value, { c with
    list := { c.list with slots := c.list.slots.remove index }.relink none link.next
    positions := Function.update c.positions link.value.id none })

def front (c : WaiterChain T) : Option (WaiterSlot T) := c.list.head.bind c.list.get

def frontId (c : WaiterChain T) : Option Nat := c.front.map (·.id)

def frontTag (c : WaiterChain T) : Option T := c.front.map (·.tag)

def remove (c : WaiterChain T) (id : Nat) : Option (Waker × WaiterChain T) := do
  let index ← c.positions id
  let (slot, list) ← c.list.unlink index
  some (slot.waker, { c with list := list, positions := Function.update c.positions id none })

/-- `none` if the waiter is not in the chain. -/
def updateWaker (c : WaiterChain T) (id : Nat) (waker : Waker) : Option (WaiterChain T) := do
  let index ← c.positions id
  let slot ← c.list.get index
  if slot.id ≠ id then none
  else some { c with list := c.list.modifyValue index fun slot => { slot with waker := waker } }

def drainLoop : (fuel : Nat) → WaiterChain T → List Waker × WaiterChain T
  | 0, c => ([], c)
  | fuel + 1, c =>
    match c.popFront with
    | none => ([], c)
    | some (slot, rest) =>
      let (wakers, rest) := drainLoop fuel rest
      (slot.waker :: wakers, rest)

/-- Takes everybody out, in order. -/
def drain (c : WaiterChain T) : List Waker × WaiterChain T :=
  drainLoop c.list.slots.entries.length c

def wakersFrom (slots : Slab (Link (WaiterSlot T))) : (fuel : Nat) → Option Nat → List Waker
  | fuel + 1, some index =>
    match slots.get index with
    | some link => link.value.waker :: wakersFrom slots fuel link.next
    | none => []
  | _, _ => []

def cloneWakers (c : WaiterChain T) : List Waker :=
  wakersFrom c.list.slots c.list.slots.entries.length c.list.head

end WaiterChain

/-- An identity that is handed out was not in use. -/
theorem nextFreeId_spec {positions : Nat → Option Nat} {fuel start id : Nat}
    (h : nextFreeId positions fuel start = some id) : positions id = none := by
  induction fuel generalizing start with
  | zero => cases h
  | succ fuel ih =>
    rw [nextFreeId] at h
    split at h
    · exact ih h
    · rename_i hfree
      cases h
      simpa using hfree

namespace WaiterChain

variable {T : Type} {c : WaiterChain T} {ws xs ys : List (WaiterSlot T)} {w : WaiterSlot T}
  {id : Nat} {es : List (Nat × WaiterSlot T)}

/-- The map of a chain fits its entries. -/
def Indexes (c : WaiterChain T) (es : List (Nat × WaiterSlot T)) : Prop :=
  ∀ id index, c.positions id = some index ↔ ∃ slot, (index, slot) ∈ es ∧ slot.id = id

/-- The chain is well formed and its waiters are `ws`, front first. -/
def Holds (c : WaiterChain T) (ws : List (WaiterSlot T)) : Prop :=
  ∃ es, c.list.Represents es ∧ es.map (·.2) = ws ∧ c.Indexes es

theorem Holds.new : (new : WaiterChain T).Holds [] :=
  ⟨[], .empty, rfl, fun id index => by simp [WaiterChain.new]⟩

/-- Identities are not shared. -/
theorem Holds.nodup (h : c.Holds ws) : (ws.map (·.id)).Nodup := by
  obtain ⟨es, hlist, rfl, hindex⟩ := h
  rw [List.map_map]
  refine (nodup_map_iff_inj_on hlist.nodup.of_map).mpr fun e he e' he' heq => ?_
  have hslot : c.positions e.2.id = some e.1 := (hindex _ _).mpr ⟨e.2, he, rfl⟩
  have hslot' : c.positions e.2.id = some e'.1 := (hindex _ _).mpr ⟨e'.2, he', heq.symm⟩
  rw [hslot, some.injEq] at hslot'
  exact inj_on_of_nodup_map hlist.nodup he he' hslot'

/-- The map knows exactly the waiters of the chain. -/
theorem Holds.positions_eq_none_iff (h : c.Holds ws) :
    c.positions id = none ↔ id ∉ ws.map (·.id) := by
  obtain ⟨es, hlist, rfl, hindex⟩ := h
  rw [List.map_map, eq_none_iff_forall_ne_some]
  constructor
  · intro hnone hmem
    obtain ⟨e, he, heq⟩ := mem_map.mp hmem
    exact hnone e.1 ((hindex id e.1).mpr ⟨e.2, he, heq⟩)
  · intro hnot index hsome
    obtain ⟨slot, hmem, heq⟩ := (hindex id index).mp hsome
    exact hnot (mem_map.mpr ⟨_, hmem, heq⟩)

theorem Holds.length_le (h : c.Holds ws) : ws.length ≤ c.list.slots.entries.length := by
  obtain ⟨es, hlist, rfl, -⟩ := h
  rw [length_map]
  exact hlist.length_le

variable {c' : WaiterChain T} {waker : Waker}

theorem Indexes.push (h : c.Indexes es) (hid : c.positions id = none) {index : Nat} (hw : w.id = id)
    (hpositions : c'.positions = update c.positions id (some index)) :
    c'.Indexes (es ++ [(index, w)]) := by
  have hnew : ∀ index' slot, (index', slot) ∈ es → slot.id ≠ id := by
    intro index' slot hmem heq
    rw [(h id index').mpr ⟨slot, hmem, heq⟩] at hid
    cases hid
  intro id' index'
  rw [hpositions]
  rcases eq_or_ne id' id with rfl | hne
  · rw [update_self, some.injEq]
    constructor
    · rintro rfl
      exact ⟨w, by simp, hw⟩
    · rintro ⟨slot, hmem, heq⟩
      rcases mem_append.mp hmem with hmem | hmem
      · exact absurd heq (hnew index' slot hmem)
      · exact (Prod.mk.inj (mem_singleton.mp hmem)).1.symm
  · rw [update_of_ne hne, h id' index']
    refine exists_congr fun slot => and_congr_left fun heq => ?_
    rw [mem_append, mem_singleton]
    refine (or_iff_left ?_).symm
    rintro hlast
    cases hlast
    exact hne (heq.symm.trans hw)

theorem Indexes.remove {xs ys : List (Nat × WaiterSlot T)} {k : Nat}
    (h : c.Indexes (xs ++ (k, w) :: ys)) (hnodup : ((xs ++ (k, w) :: ys).map (·.1)).Nodup)
    (hpositions : c'.positions = update c.positions w.id none) :
    c'.Indexes (xs ++ ys) := by
  have hk : k ∉ (xs ++ ys).map (·.1) := by
    have hperm : (xs ++ (k, w) :: ys).Perm ((k, w) :: (xs ++ ys)) := perm_middle
    exact (nodup_cons.mp ((hperm.map Prod.fst).nodup_iff.mp hnodup)).1
  intro id index
  rw [hpositions]
  rcases eq_or_ne id w.id with rfl | hne
  · rw [update_self]
    refine iff_of_false nofun ?_
    rintro ⟨slot, hmem, heq⟩
    have hslot : c.positions w.id = some index :=
      (h _ _).mpr ⟨slot, by simp only [mem_append, mem_cons] at hmem ⊢; tauto, heq⟩
    have hk' : c.positions w.id = some k := (h _ _).mpr ⟨w, by simp, rfl⟩
    rw [hslot, some.injEq] at hk'
    subst hk'
    exact hk (mem_map.mpr ⟨_, hmem, rfl⟩)
  · rw [update_of_ne hne, h id index]
    refine exists_congr fun slot => and_congr_left fun heq => ?_
    rw [mem_append, mem_cons, mem_append]
    refine or_congr_right (or_iff_right ?_)
    rintro hmid
    cases hmid
    exact hne heq.symm

theorem Holds.pushBack (h : c.Holds ws) (waker : Waker) (tag : T) (hid : c.freshId = some id) :
    ∃ c', c.pushBackTagged waker tag = some (c', id) ∧
      c'.Holds (ws ++ [{ id := id, waker := waker, tag := tag }]) := by
  obtain ⟨es, hlist, rfl, hindex⟩ := h
  refine ⟨_, by rw [pushBackTagged, hid]; rfl, _, hlist.pushBack _, by simp, ?_⟩
  exact hindex.push (nextFreeId_spec hid) rfl rfl

/-- Whoever was pushed is the last entry, under an identity that was free. -/
theorem Holds.of_push {tag : T} (h : c.Holds ws)
    (hpush : c.pushBackTagged waker tag = some (c', id)) :
    c.freshId = some id ∧ c'.Holds (ws ++ [{ id := id, waker := waker, tag := tag }]) := by
  obtain ⟨fresh, hfresh, -⟩ := bind_eq_some_iff.mp hpush
  obtain ⟨chain, hpush', hrest⟩ := h.pushBack waker tag hfresh
  cases hpush'.symm.trans hpush
  exact ⟨hfresh, hrest⟩

theorem nextId_remove (h : c.remove id = some (waker, c')) : c'.nextId = c.nextId := by
  obtain ⟨index, -, hunlink⟩ := bind_eq_some_iff.mp h
  obtain ⟨⟨slot, list⟩, -, heq⟩ := bind_eq_some_iff.mp hunlink
  cases heq
  rfl

/-- An empty chain hands out the identity it has come to. -/
theorem Holds.freshId_of_empty (h : c.Holds []) : c.freshId = some c.nextId := by
  have hnone : c.positions c.nextId = none := h.positions_eq_none_iff.mpr not_mem_nil
  rw [freshId, nextFreeId, hnone]
  rfl

theorem Holds.popFront_nil (h : c.Holds []) : c.popFront = none := by
  obtain ⟨es, hlist, hes, -⟩ := h
  rw [popFront, hlist.head_eq_none_iff.mpr (map_eq_nil_iff.mp hes)]
  rfl

theorem Holds.popFront (h : c.Holds (w :: ws)) : ∃ c', c.popFront = some (w, c') ∧ c'.Holds ws := by
  obtain ⟨es, hlist, hes, hindex⟩ := h
  obtain ⟨⟨k, w'⟩, rest, rfl, rfl, rfl⟩ := map_eq_cons_iff.mp hes
  replace hlist : c.list.Represents ([] ++ (k, w') :: rest) := hlist
  replace hindex : c.Indexes ([] ++ (k, w') :: rest) := hindex
  have hlink := hlist.linked [] k w' rest rfl
  obtain ⟨l', hunlink, hrest⟩ := hlist.unlink
  rw [unlink, hlink] at hunlink
  cases hunlink
  have hpop : c.popFront = some (w', { c with
      list := { c.list with slots := c.list.slots.remove k }.relink none (firstKey rest)
      positions := update c.positions w'.id none }) := by
    rw [popFront, hlist.head]
    simp only [nil_append, firstKey_cons, bind_eq_bind, bind_some, hlink]
  exact ⟨_, hpop, rest, hrest, rfl, hindex.remove hlist.nodup rfl⟩

theorem Holds.front (h : c.Holds ws) : c.front = ws.head? := by
  obtain ⟨es, hlist, rfl, -⟩ := h
  rw [front, hlist.head]
  cases es with
  | nil => rfl
  | cons e rest => exact hlist.get_of_mem mem_cons_self

theorem Holds.mem_values_iff (h : c.Holds ws) : w ∈ c.list.slots.values.map (·.value) ↔ w ∈ ws := by
  obtain ⟨es, hlist, rfl, -⟩ := h
  exact hlist.mem_values_iff

theorem Holds.isEmpty_iff (h : c.Holds ws) : c.isEmpty = true ↔ ws = [] := by
  obtain ⟨es, hlist, rfl, -⟩ := h
  rw [isEmpty, isNone_iff_eq_none, hlist.head_eq_none_iff, map_eq_nil_iff]

theorem Holds.remove (h : c.Holds (xs ++ w :: ys)) :
    ∃ c', c.remove w.id = some (w.waker, c') ∧ c'.Holds (xs ++ ys) := by
  obtain ⟨es, hlist, hes, hindex⟩ := h
  obtain ⟨es₁, es₂, rfl, rfl, hes₂⟩ := map_eq_append_iff.mp hes
  obtain ⟨⟨k, w'⟩, es₂, rfl, rfl, rfl⟩ := map_eq_cons_iff.mp hes₂
  have hk : c.positions w'.id = some k := (hindex _ _).mpr ⟨w', by simp, rfl⟩
  obtain ⟨l', hunlink, hrest⟩ := hlist.unlink
  refine ⟨_, by rw [remove, hk, bind_eq_bind, bind_some, hunlink]; rfl, _, hrest, map_append, ?_⟩
  exact hindex.remove hlist.nodup rfl

theorem Holds.remove_of_notMem (h : c.Holds ws) (hid : id ∉ ws.map (·.id)) : c.remove id = none := by
  rw [WaiterChain.remove, h.positions_eq_none_iff.mpr hid]
  rfl

/-- The waker of one waiter replaced. -/
def setWaker (id : Nat) (waker : Waker) (w : WaiterSlot T) : WaiterSlot T :=
  if w.id = id then { w with waker := waker } else w

@[simp] theorem id_setWaker (id : Nat) (waker : Waker) (w : WaiterSlot T) :
    (setWaker id waker w).id = w.id := by
  rw [setWaker]
  split <;> rfl

@[simp] theorem tag_setWaker (id : Nat) (waker : Waker) (w : WaiterSlot T) :
    (setWaker id waker w).tag = w.tag := by
  rw [setWaker]
  split <;> rfl

theorem id_changeAt (k : Nat) (waker : Waker) (e : Nat × WaiterSlot T) :
    (changeAt k (fun slot => { slot with waker := waker }) e).2.id = e.2.id := by
  rw [changeAt]
  split <;> rfl

theorem Holds.updateWaker (h : c.Holds ws) (hid : id ∈ ws.map (·.id)) (waker : Waker) :
    ∃ c', c.updateWaker id waker = some c' ∧ c'.Holds (ws.map (setWaker id waker)) := by
  obtain ⟨es, hlist, rfl, hindex⟩ := h
  obtain ⟨w, hw, rfl⟩ := mem_map.mp hid
  obtain ⟨⟨k, w'⟩, he, rfl⟩ := mem_map.mp hw
  have hk : c.positions w'.id = some k := (hindex _ _).mpr ⟨w', he, rfl⟩
  have hslot : ∀ e ∈ es, (e.2.id = w'.id ↔ e.1 = k) := by
    intro e hmem
    constructor
    · intro heq
      exact some.inj (((hindex _ _).mpr ⟨e.2, hmem, heq⟩).symm.trans hk)
    · intro heq
      rw [inj_on_of_nodup_map hlist.nodup hmem he heq]
  have hupdate : c.updateWaker w'.id waker = some { c with
      list := c.list.modifyValue k fun slot => { slot with waker := waker } } := by
    simp [updateWaker, hk, hlist.get_of_mem he]
  refine ⟨_, hupdate, _, hlist.modifyValue k fun slot => { slot with waker := waker }, ?_, ?_⟩
  · rw [List.map_map, List.map_map]
    refine map_congr_left fun e hmem => ?_
    simp only [comp_apply, changeAt, setWaker, hslot e hmem]
    split <;> rfl
  -- slots and identities of the entries are what they were
  intro id index
  rw [show _ ↔ _ from hindex id index]
  constructor
  · rintro ⟨slot, hmem, rfl⟩
    refine ⟨(changeAt k (fun slot => { slot with waker := waker }) (index, slot)).2,
      mem_map.mpr ⟨(index, slot), hmem, ?_⟩, id_changeAt k waker (index, slot)⟩
    exact Prod.ext (fst_changeAt k _ (index, slot)) rfl
  · rintro ⟨slot, hmem, rfl⟩
    obtain ⟨⟨index', slot'⟩, he', heq⟩ := mem_map.mp hmem
    have hindex' : index' = index := (fst_changeAt k _ (index', slot')).symm.trans (congrArg Prod.fst heq)
    have hid' : slot'.id = slot.id :=
      (id_changeAt k waker (index', slot')).symm.trans (congrArg (·.2.id) heq)
    exact ⟨slot', hindex' ▸ he', hid'⟩

theorem Holds.updateWaker_of_notMem (h : c.Holds ws) (hid : id ∉ ws.map (·.id)) (waker : Waker) :
    c.updateWaker id waker = none := by
  rw [WaiterChain.updateWaker, h.positions_eq_none_iff.mpr hid]
  rfl

theorem Holds.drainLoop (h : c.Holds ws) {fuel : Nat} (hfuel : ws.length ≤ fuel) :
    ∃ c', c.drainLoop fuel = (ws.map (·.waker), c') ∧ c'.Holds [] := by
  induction fuel generalizing c ws with
  | zero =>
    have hnil : ws = [] := length_eq_zero_iff.mp (Nat.le_zero.mp hfuel)
    subst hnil
    exact ⟨c, rfl, h⟩
  | succ fuel ih =>
    cases ws with
    | nil =>
      refine ⟨c, ?_, h⟩
      rw [drainLoop, h.popFront_nil]
      rfl
    | cons w ws =>
      obtain ⟨rest, hpop, hrest⟩ := h.popFront
      obtain ⟨c', hdrain, hc'⟩ := ih hrest (Nat.le_of_succ_le_succ hfuel)
      refine ⟨c', ?_, hc'⟩
      rw [drainLoop, hpop]
      simp only [hdrain]
      rfl

theorem Holds.drain (h : c.Holds ws) : ∃ c', c.drain = (ws.map (·.waker), c') ∧ c'.Holds [] :=
  h.drainLoop h.length_le

end WaiterChain

end Asupersync
