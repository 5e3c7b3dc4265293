import Asupersync.Lib.TransitionSystem
import Asupersync.Util.Arena
import Mathlib.Algebra.GroupWithZero.Nat
import Mathlib.Data.List.AList

/-!
# The region heap

Boxed values behind handles.  Slots, generations and free list are those of the arena,
but a slot is never retired: its generation wraps.  `reclaim_all` drops the slots, so
that the generations start over.

**Results.**  `heap_handles_resolve`: as long as nothing is allocated once the slots of a
heap in use have been dropped, a handle leads to its own value, and to nothing when that
is gone.
-/

namespace Asupersync

open Lib List Arena Option

structure HeapStats where
  allocations : Nat
  reclaimed : Nat
  live : Nat
  bytesAllocated : Nat
  bytesLive : Nat

structure HeapIndex (TypeId : Type) extends ArenaIndex where
  typeId : TypeId

structure HeapEntry (Value : Type) where
  value : Value
  sizeHint : Nat

structure RegionHeap (Value : Type) extends Arena (HeapEntry Value) where
  len : Nat
  stats : HeapStats

/-- The types and sizes of the values that can be boxed. -/
structure Boxable (TypeId Value : Type) where
  typeOf : Value → TypeId
  sizeOf : Value → Nat

variable {TypeId Value : Type} (B : Boxable TypeId Value)

namespace RegionHeap

def new : RegionHeap Value := { slots := [], freeHead := none, len := 0, stats := ⟨0, 0, 0, 0, 0⟩ }

/-- Takes a slot as an arena does. -/
def alloc (heap : RegionHeap Value) (value : Value) :
    Option (HeapIndex TypeId × RegionHeap Value) := do
  let (i, arena) ← heap.insertWith fun _ => ⟨value, B.sizeOf value⟩
  some ({ i with typeId := B.typeOf value },
    { toArena := arena
      len := heap.len + 1
      stats := { heap.stats with
        allocations := heap.stats.allocations + 1
        live := heap.stats.live + 1
        bytesAllocated := heap.stats.bytesAllocated + B.sizeOf value
        bytesLive := heap.stats.bytesLive + B.sizeOf value } })

def get [DecidableEq TypeId] (heap : RegionHeap Value) (type : TypeId) (index : HeapIndex TypeId) :
    Option Value :=
  if type ≠ index.typeId then none
  else (heap.toArena.get index.toArenaIndex).bind fun entry =>
    if B.typeOf entry.value = type then some entry.value else none

/-- The value, and the heap with another value in its place. -/
def getMut [DecidableEq TypeId] (heap : RegionHeap Value) (type : TypeId)
    (index : HeapIndex TypeId) : Option (Value × (Value → RegionHeap Value)) :=
  (heap.get B type index).map fun value => (value, fun new =>
    { heap with slots := (heap.modify index.toArenaIndex ({ · with value := new })).slots })

def contains (heap : RegionHeap Value) (index : HeapIndex TypeId) : Bool :=
  (heap.toArena.get index.toArenaIndex).isSome

def dealloc (heap : RegionHeap Value) (index : HeapIndex TypeId) : Bool × RegionHeap Value :=
  match heap.toArena.get index.toArenaIndex with
  | some entry =>
    (true,
      { slots := heap.slots.set index.index.toNat (.vacant heap.freeHead (index.generation + 1))
        freeHead := some index.index
        len := heap.len - 1
        stats := { heap.stats with
          reclaimed := heap.stats.reclaimed + 1
          live := heap.stats.live - 1
          bytesLive := heap.stats.bytesLive - entry.sizeHint } })
  | none => (false, heap)

def reclaimAll (heap : RegionHeap Value) : RegionHeap Value where
  slots := []
  freeHead := none
  len := 0
  stats := { heap.stats with
    reclaimed := heap.stats.reclaimed + heap.len
    live := 0
    bytesLive := 0 }

end RegionHeap

inductive HeapOp (TypeId Value : Type) where
  | alloc (value : Value)
  | dealloc (index : HeapIndex TypeId)
  | reclaimAll

/-- A heap with the handles it has issued: what those of the live values stand for, and those of
the values that are gone. -/
structure HeapRun (TypeId Value : Type) where
  heap : RegionHeap Value
  live : AList fun _ : ArenaIndex => TypeId × Value
  dead : List (HeapIndex TypeId)

namespace HeapRun

def exec (s : HeapRun TypeId Value) : HeapOp TypeId Value → Option (HeapRun TypeId Value)
  | .alloc value => do
    let (index, heap) ← s.heap.alloc B value
    some { s with heap := heap, live := s.live.insert index.toArenaIndex (index.typeId, value) }
  | .dealloc index =>
    let freed := (s.live.lookup index.toArenaIndex).toList
    some
      { heap := (s.heap.dealloc index).2
        live := s.live.erase index.toArenaIndex
        dead := freed.map (fun e => { index with typeId := e.1 }) ++ s.dead }
  | .reclaimAll =>
    some
      { heap := s.heap.reclaimAll
        live := ∅
        dead := s.live.entries.map (fun e => { e.1 with typeId := e.2.1 }) ++ s.dead }

/-- No slot is reused for the 2^32nd time, and nothing is allocated in a heap that has lost
the slots of earlier handles. -/
def Allows (s : HeapRun TypeId Value) : HeapOp TypeId Value → Prop
  | .alloc _ => (∀ i next, s.heap.freeHead = some i → s.heap.slot i ≠ some (.vacant next 0)) ∧
    (s.heap.slots = [] → s.dead = [])
  | _ => True

/-- The counters count the live values. -/
def Counts (s : HeapRun TypeId Value) : Prop :=
  s.heap.len = s.live.entries.length ∧ s.heap.stats.live = s.live.entries.length ∧
    s.heap.stats.bytesLive = (s.live.entries.map fun e => B.sizeOf e.2.2).sum

/-- Handles lead to their values and the free list has the vacant slots. -/
structure Resolves [DecidableEq TypeId] (s : HeapRun TypeId Value) : Prop where
  live : ∀ index value, s.live.lookup index.toArenaIndex = some (index.typeId, value) →
    s.heap.get B index.typeId index = some value ∧
    (s.heap.getMut B index.typeId index).map (·.1) = some value ∧
    s.heap.contains index = true ∧ (s.heap.dealloc index).1 = true
  dead : ∀ index ∈ s.dead,
    (∀ type, s.heap.get B type index = none ∧ s.heap.getMut B type index = none) ∧
    s.heap.contains index = false ∧ s.heap.dealloc index = (false, s.heap)
  free : ∃ list, FreeList s.heap.slots s.heap.freeHead list ∧
    ∀ i, i ∈ list ↔ ∃ next generation, s.heap.slot i = some (.vacant next generation)
  counts : s.Counts B

/-! ## What every step keeps -/

/-- The slot has moved on from a generation. -/
def Past (generation : UInt32) : Slot (HeapEntry Value) → Prop
  | .occupied _ now => generation < now
  | .vacant _ now => now = 0 ∨ generation < now

structure Inv (s : HeapRun TypeId Value) : Prop where
  size : s.heap.slots.length ≤ u32Max + 1
  free : ∃ list, FreeList s.heap.slots s.heap.freeHead list ∧
    ∀ i next generation, s.heap.slot i = some (.vacant next generation) → i ∈ list
  view : ∀ i, s.heap.toArena.get i = (s.live.lookup i).map fun e => ⟨e.2, B.sizeOf e.2⟩
  typed : ∀ i e, s.live.lookup i = some e → e.1 = B.typeOf e.2
  dead : ∀ index ∈ s.dead, s.heap.slots = [] ∨
    ∃ slot, s.heap.slot index.index = some slot ∧ Past index.generation slot
  counts : s.Counts B

variable {B} {s s' : HeapRun TypeId Value}

theorem Inv.get_dead (h : Inv B s) {index : HeapIndex TypeId} (hindex : index ∈ s.dead) :
    s.heap.toArena.get index.toArenaIndex = none := by
  unfold Arena.get
  obtain hnil | ⟨slot, hslot, hpast⟩ := h.dead index hindex
  · simp [Arena.slot, hnil]
  · rw [hslot]
    cases slot with
    | occupied entry now => exact if_neg (UInt32.ne_of_lt hpast).symm
    | vacant next now => rfl

theorem Inv.resolves [DecidableEq TypeId] (h : Inv B s) : s.Resolves B where
  live index value hlookup := by
    have hget := h.view index.toArenaIndex
    have htype := h.typed _ _ hlookup
    rw [hlookup] at hget
    have hvalue : s.heap.get B index.typeId index = some value := by
      simp [RegionHeap.get, hget, ← htype]
    simp [RegionHeap.getMut, RegionHeap.contains, RegionHeap.dealloc, hget, hvalue]
  dead index hindex := by
    have hnone := h.get_dead hindex
    simp [RegionHeap.get, RegionHeap.getMut, RegionHeap.contains, RegionHeap.dealloc, hnone]
  free := by
    obtain ⟨list, hlist, hall⟩ := h.free
    refine ⟨list, hlist, fun i => ⟨hlist.vacant i, ?_⟩⟩
    rintro ⟨next, generation, hslot⟩
    exact hall i next generation hslot
  counts := h.counts

theorem Inv.alloc {value : Value} (h : Inv B s) (hallows : s.Allows (.alloc value))
    (hexec : s.exec B (.alloc value) = some s') : Inv B s' := by
  obtain ⟨⟨index, heap⟩, halloc, ⟨⟩⟩ := bind_eq_some_iff.mp hexec
  obtain ⟨⟨i, arena⟩, hinsert, ⟨⟩⟩ := bind_eq_some_iff.mp halloc
  obtain ⟨list, hlist, hall⟩ := h.free
  obtain ⟨hwrite, hcase⟩ := insertWith_cases hinsert
  obtain ⟨hw, habsent, -, hget, -⟩ := insertWith_spec ⟨h.size, list, hlist⟩ hinsert
  refine ⟨hw.size, ⟨_, hlist.insertWith hinsert, fun j next generation hj => ?_⟩, fun j => ?_,
    fun j e hj => ?_, fun index hindex => .inr ?_, ?_⟩
  · dsimp only at hj
    rw [hwrite] at hj
    split at hj
    · cases hj
    rename_i hne
    have hmem := hall j next generation hj
    obtain ⟨_, hhead, -⟩ | ⟨hhead, -⟩ := hcase
    all_goals rw [hhead] at hlist; cases hlist
    · exact mem_of_ne_of_mem hne hmem
    · exact hmem
  · refine (hget j).trans ?_
    rcases eq_or_ne j i with rfl | hne
    · rw [if_pos rfl, AList.lookup_insert]
      rfl
    · rw [if_neg hne, h.view, AList.lookup_insert_ne hne]
  · rcases eq_or_ne j i with rfl | hne
    · rw [AList.lookup_insert] at hj
      cases hj
      rfl
    · exact h.typed j e (AList.lookup_insert_ne hne ▸ hj)
  · obtain hnil | ⟨slot, hslot, hpast⟩ := h.dead index hindex
    · cases hallows.2 hnil ▸ hindex
    by_cases heq : index.index = i.index
    · refine ⟨_, (hwrite _).trans (if_pos heq), ?_⟩
      rw [heq] at hslot
      obtain ⟨next, hhead, hvacant, -⟩ | ⟨-, hvacant, -⟩ := hcase
      all_goals cases hvacant.symm.trans hslot
      exact hpast.resolve_left fun hzero => hallows.1 i.index next hhead (hzero ▸ hvacant)
    · exact ⟨slot, ((hwrite _).trans (if_neg heq)).trans hslot, hpast⟩
  · obtain ⟨hlen, hlive, hbytes⟩ := h.counts
    have hnew : i ∉ s.live := by
      rw [← AList.lookup_eq_none, ← map_eq_none_iff, ← h.view, habsent]
    simp [-AList.entries_insert, Counts, AList.entries_insert_of_notMem hnew, hlen, hlive, hbytes,
      Nat.add_comm]

theorem past_succ {generation now : UInt32} (h : generation ≤ now) (next : Option UInt32) :
    Past generation (.vacant next (now + 1) : Slot (HeapEntry Value)) := by
  by_cases hmax : now.toNat = u32Max
  · refine .inl (UInt32.toNat_inj.mp ?_)
    rw [UInt32.toNat_add, hmax]
    rfl
  · exact .inr (UInt32.lt_of_le_of_lt h (lt_add_one_of_ne_max hmax))

theorem Inv.dealloc (h : Inv B s) (index : HeapIndex TypeId)
    (hexec : s.exec B (.dealloc index) = some s') : Inv B s' := by
  cases hexec
  have hview := h.view index.toArenaIndex
  by_cases hmem : index.toArenaIndex ∈ s.live
  · obtain ⟨e, xs, ys, -, hlive, herase⟩ := exists_of_kerase hmem
    have hlookup : s.live.lookup index.toArenaIndex = some e :=
      AList.mem_lookup_iff.mpr (by simp [hlive])
    rw [hlookup, map_some] at hview
    have hslot := (get_eq_some_iff _ _ _).mp hview
    obtain ⟨list, hlist, hall⟩ := h.free
    have hout := hlist.not_mem_of_occupied hslot
    have hwrite : ∀ j, (s.heap.dealloc index).2.slot j = if j = index.index then
        some (.vacant s.heap.freeHead (index.generation + 1)) else s.heap.slot j := by
      intro j
      simp only [RegionHeap.dealloc, hview]
      rw [slot_set, hslot]
      rfl
    refine ⟨?_, ⟨index.index :: list, ?_, fun j next generation hj => ?_⟩, fun j => ?_,
      fun j e' hj => ?_, fun i hi => .inr ?_, ?_⟩
    · simpa [RegionHeap.dealloc, hview] using h.size
    · have hfirst := (hwrite index.index).trans (if_pos rfl)
      simp only [RegionHeap.dealloc, hview] at hfirst ⊢
      exact .cons hfirst hout (hlist.set hout)
    · dsimp only at hj
      rw [hwrite] at hj
      split at hj
      · rename_i heq
        exact heq ▸ mem_cons_self
      · exact mem_cons_of_mem _ (hall j next generation hj)
    · refine (get_free hview hwrite j).trans ?_
      rcases eq_or_ne j index.toArenaIndex with rfl | hne
      · rw [if_pos rfl, AList.lookup_erase]
        rfl
      · rw [if_neg hne, h.view, AList.lookup_erase_ne hne]
    · rcases eq_or_ne j index.toArenaIndex with rfl | hne
      · cases (AList.lookup_erase _ _).symm.trans hj
      · exact h.typed j e' (AList.lookup_erase_ne hne ▸ hj)
    · rw [hlookup] at hi
      rcases mem_cons.mp hi with rfl | hi
      · exact ⟨_, (hwrite _).trans (if_pos rfl), past_succ UInt32.le_rfl _⟩
      obtain hnil | ⟨slot, hold, hpast⟩ := h.dead i hi
      · simp [Arena.slot, hnil] at hslot
      by_cases heq : i.index = index.index
      · cases hslot.symm.trans (heq ▸ hold)
        exact ⟨_, (hwrite _).trans (if_pos heq), past_succ (UInt32.le_of_lt hpast) _⟩
      · exact ⟨slot, ((hwrite _).trans (if_neg heq)).trans hold, hpast⟩
    · obtain ⟨hlen, hcount, hbytes⟩ := h.counts
      rw [hlive] at hlen hcount hbytes
      have hentries : (s.live.erase index.toArenaIndex).entries = xs ++ ys := herase
      simp [Counts, RegionHeap.dealloc, hview, hentries, hlen, hcount, hbytes]
      omega
  · rw [AList.lookup_eq_none.mpr hmem] at hview
    have hsame : s.live.erase index.toArenaIndex = s.live := AList.ext (kerase_of_notMem_keys hmem)
    simp only [RegionHeap.dealloc, hview, hsame, AList.lookup_eq_none.mpr hmem]
    exact h

theorem Inv.reclaimAll (hexec : s.exec B .reclaimAll = some s') : Inv B s' := by
  cases hexec
  exact ⟨Nat.zero_le _, ⟨[], .nil, nofun⟩, fun _ => rfl, nofun, fun _ _ => .inl rfl, rfl, rfl, rfl⟩

end HeapRun

/-- The runs of a heap whose steps all are allowed. -/
def heapSystem : TransitionSystem (HeapRun TypeId Value) (HeapOp TypeId Value) where
  init s := s = ⟨.new, ∅, []⟩
  step s op s' := s.exec B op = some s' ∧ s.Allows op

theorem heap_handles_resolve [DecidableEq TypeId] {s : HeapRun TypeId Value}
    (hs : (heapSystem B).Reachable s) : s.Resolves B := by
  have h : HeapRun.Inv B s := by
    refine hs.invariant ?_ ?_
    · rintro s rfl
      exact .reclaimAll (s := ⟨.new, ∅, []⟩) rfl
    · rintro s op s' h ⟨hexec, hallows⟩
      cases op with
      | alloc value => exact h.alloc hallows hexec
      | dealloc index => exact h.dealloc index hexec
      | reclaimAll => exact .reclaimAll hexec
  exact h.resolves

def boolBox : Boxable Unit Bool := ⟨fun _ => (), fun _ => 1⟩

theorem heap_reused_slot_resolves :
    ∃ s, (heapSystem boolBox).Reachable s ∧ s.live.keys = [⟨0, 1⟩] ∧ s.Resolves boolBox := by
  have hs : (heapSystem boolBox).Reachable _ :=
    ⟨_, _, rfl, .snoc (a := HeapOp.alloc true) (.snoc (a := HeapOp.dealloc ⟨⟨0, 0⟩, ()⟩)
      (.snoc (a := HeapOp.alloc false) .nil ⟨rfl, by rintro _ _ ⟨⟩, fun _ => rfl⟩) ⟨rfl, trivial⟩)
      ⟨rfl, by rintro _ _ ⟨⟩ ⟨⟩, by rintro ⟨⟩⟩⟩
  exact ⟨_, hs, rfl, heap_handles_resolve boolBox hs⟩

/-- A handle from before `reclaim_all` leads to the first value allocated after it. -/
theorem reclaimed_handle_resolves :
    ∃ s, [.alloc false, .reclaimAll, .alloc true].foldlM (HeapRun.exec boolBox) ⟨.new, ∅, []⟩ =
      some s ∧ ¬ s.Resolves boolBox :=
  ⟨_, rfl, fun h => absurd (h.dead ⟨⟨0, 0⟩, ()⟩ (.head _)).2.1 (by decide)⟩

end Asupersync
