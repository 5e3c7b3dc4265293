import Asupersync.Lib.Causality
import Asupersync.Lib.OrderedMap

/-!
# Logical clocks

Lamport clocks, hybrid clocks over arbitrary time sources, and vector clocks kept by one
causal tracker per node.  Counters have 64 bits; an increment that does not fit stops.

**Results.**
* `Tracks.of_reachable`: a component of a vector clock tells which events of that node
  lie in the causal past.
* `clocks_reflect_causality`: happens-before implies smaller Lamport and hybrid times, and
  is the order of the vector clocks.
-/

namespace Asupersync

open Lib Lib.Causality Function Option

/-- `checked_add(1)` on 64 bits. -/
def checkedSucc (n : Nat) : Option Nat := if n + 1 < 2 ^ 64 then some (n + 1) else none

theorem checkedSucc_eq_some {n m : Nat} (h : checkedSucc n = some m) : m = n + 1 :=
  (some.inj (ite_none_right_eq_some.mp h).2).symm

/-! ## Lamport clocks -/

structure LamportClock where
  counter : Nat

namespace LamportClock

def tick (clock : LamportClock) : Option (LamportClock × Nat) := do
  let next ← checkedSucc clock.counter
  some (⟨next⟩, next)

def receive (clock : LamportClock) (sender : Nat) : Option (LamportClock × Nat) := do
  let next ← checkedSucc (max clock.counter sender)
  some (⟨next⟩, next)

def clock : Clock LamportClock Nat Nat := ⟨fun c _ => c.tick, fun c _ => c.receive⟩

theorem advances : clock.Advances counter where
  tick h := by
    obtain ⟨next, hnext, h⟩ := bind_eq_some_iff.mp h
    cases h
    cases checkedSucc_eq_some hnext
    exact ⟨Nat.lt_succ_self _, rfl⟩
  receive h := by
    obtain ⟨next, hnext, h⟩ := bind_eq_some_iff.mp h
    cases h
    cases checkedSucc_eq_some hnext
    exact ⟨Nat.lt_succ_of_le (Nat.le_max_left ..), Nat.lt_succ_of_le (Nat.le_max_right ..), rfl⟩

end LamportClock

/-! ## Hybrid clocks -/

structure HybridTime where
  physical : Nat
  logical : Nat
deriving DecidableEq, Repr

/-- The derived order: by physical, then by logical time. -/
instance : Preorder HybridTime := Preorder.lift fun t => toLex (t.physical, t.logical)

theorem HybridTime.lt_iff (a b : HybridTime) :
    a < b ↔ a.physical < b.physical ∨ a.physical = b.physical ∧ a.logical < b.logical :=
  Prod.Lex.lt_iff

structure HybridState where
  lastPhysical : Nat
  logical : Nat

namespace HybridState

def new (now : Nat) : HybridState := ⟨now, 0⟩

def time (state : HybridState) : HybridTime := ⟨state.lastPhysical, state.logical⟩

/-- The time source may jump backwards; what the clock has shown is kept. -/
def physicalNow (state : HybridState) (physical : Nat) : Nat :=
  if physical < state.lastPhysical then state.lastPhysical else physical

def tick (state : HybridState) (reading : Nat) : Option (HybridState × HybridTime) :=
  let physical := state.physicalNow reading
  let next :=
    if physical = state.lastPhysical then
      (checkedSucc state.logical).map fun logical => ⟨state.lastPhysical, logical⟩
    else some ⟨physical, 0⟩
  next.map fun state => (state, state.time)

def nextLogical (state : HybridState) (sender : HybridTime) (maxPhysical : Nat) : Option Nat :=
  if maxPhysical = state.lastPhysical ∧ maxPhysical = sender.physical then
    checkedSucc (max state.logical sender.logical)
  else if maxPhysical = state.lastPhysical then checkedSucc state.logical
  else if maxPhysical = sender.physical then checkedSucc sender.logical
  else some 0

def receive (state : HybridState) (reading : Nat) (sender : HybridTime) :
    Option (HybridState × HybridTime) :=
  let maxPhysical := max (max (state.physicalNow reading) state.lastPhysical) sender.physical
  (state.nextLogical sender maxPhysical).map fun logical =>
    (⟨maxPhysical, logical⟩, ⟨maxPhysical, logical⟩)

def clock : Clock HybridState Nat HybridTime := ⟨tick, receive⟩

theorem advances : clock.Advances time where
  tick {state reading _ _} h := by
    obtain ⟨next, hnext, h⟩ := map_eq_some_iff.mp h
    cases h
    refine ⟨(HybridTime.lt_iff _ _).mpr ?_, rfl⟩
    split at hnext
    · obtain ⟨logical, hlogical, rfl⟩ := map_eq_some_iff.mp hnext
      cases checkedSucc_eq_some hlogical
      exact .inr ⟨rfl, Nat.lt_succ_self _⟩
    · cases hnext
      refine .inl (Nat.lt_of_le_of_ne (m := state.physicalNow reading) ?_ (Ne.symm ‹_›))
      unfold HybridState.physicalNow
      show state.lastPhysical ≤ _
      split <;> omega
  receive {state reading sender _ _} h := by
    obtain ⟨logical, hlogical, h⟩ := map_eq_some_iff.mp h
    cases h
    rw [HybridTime.lt_iff, HybridTime.lt_iff]
    refine and_assoc.mp ⟨?_, rfl⟩
    dsimp only [time]
    -- The new physical time is at least both others; where it equals one, its count is passed.
    unfold nextLogical at hlogical
    split_ifs at hlogical
    · cases checkedSucc_eq_some hlogical
      omega
    · cases checkedSucc_eq_some hlogical
      omega
    · cases checkedSucc_eq_some hlogical
      omega
    · omega

end HybridState

/-! ## Vector clocks -/

inductive CausalOrder where
  | before
  | after
  | equal
  | concurrent
deriving DecidableEq, Repr

variable {NodeId : Type} [LinearOrder NodeId]

structure VectorClock (NodeId : Type) [LinearOrder NodeId] where
  entries : Std.ExtTreeMap NodeId Nat

namespace VectorClock

def new : VectorClock NodeId := ⟨∅⟩

def get (vc : VectorClock NodeId) (node : NodeId) : Nat := vc.entries.getD node 0

def increment (vc : VectorClock NodeId) (node : NodeId) : Option (Nat × VectorClock NodeId) := do
  let entry ← checkedSucc (vc.get node)
  some (entry, ⟨vc.entries.insert node entry⟩)

def mergeIn (vc other : VectorClock NodeId) : VectorClock NodeId :=
  ⟨OrderedMap.mergeInto (fun entry value => if value > entry then value else entry) 0
    vc.entries other.entries⟩

def receive (vc : VectorClock NodeId) (localNode : NodeId) (remoteClock : VectorClock NodeId) :
    Option (VectorClock NodeId) := do
  let (_, vc) ← (vc.mergeIn remoteClock).increment localNode
  some vc

/-- What the two flags mean in the end. -/
def verdict : Bool → Bool → CausalOrder
  | true, true => .equal
  | true, false => .before
  | false, true => .after
  | false, false => .concurrent

/-- The loop over the nodes, with its two flags and its early exit. -/
def causalOrderLoop (vc other : VectorClock NodeId) : List NodeId → Bool → Bool → CausalOrder
  | [], selfLeqOther, otherLeqSelf => verdict selfLeqOther otherLeqSelf
  | node :: nodes, selfLeqOther, otherLeqSelf =>
    let selfLeqOther := if vc.get node > other.get node then false else selfLeqOther
    let otherLeqSelf := if other.get node > vc.get node then false else otherLeqSelf
    if !selfLeqOther && !otherLeqSelf then .concurrent
    else causalOrderLoop vc other nodes selfLeqOther otherLeqSelf

/-- A node that is in both clocks is looked at twice here; the flags stay as they are. -/
def causalOrder (vc other : VectorClock NodeId) : CausalOrder :=
  causalOrderLoop vc other (vc.entries.keys ++ other.entries.keys) true true

instance : Preorder (VectorClock NodeId) := Preorder.lift get

theorem get_increment {vc vc' : VectorClock NodeId} {node : NodeId} {entry : Nat}
    (h : vc.increment node = some (entry, vc')) :
    vc'.get = update vc.get node (vc.get node + 1) := by
  obtain ⟨next, hnext, h⟩ := bind_eq_some_iff.mp h
  cases h
  cases checkedSucc_eq_some hnext
  funext p
  rw [get, OrderedMap.getD_eq, OrderedMap.getElem?_insert, update_apply]
  by_cases hp : node = p
  · simp [hp]
  · simp [hp, Ne.symm hp, get, OrderedMap.getD_eq]

theorem get_mergeIn (vc other : VectorClock NodeId) :
    (vc.mergeIn other).get = vc.get ⊔ other.get := by
  funext p
  simp only [get, mergeIn, OrderedMap.getD_eq, Pi.sup_apply]
  rw [OrderedMap.getElem?_mergeInto _ _ (fun v => by split <;> omega)]
  cases vc.entries[p]? with
  | none => simp
  | some a =>
    cases other.entries[p]? with
    | none => simp
    | some b =>
      rw [merge_some_some, getD_some, getD_some, getD_some]
      split <;> omega

/-- The flags as they are after the loop. -/
theorem causalOrderLoop_eq (vc other : VectorClock NodeId) (nodes : List NodeId) (x y : Bool) :
    causalOrderLoop vc other nodes x y = verdict (x && nodes.all fun p => vc.get p ≤ other.get p)
        (y && nodes.all fun p => other.get p ≤ vc.get p) := by
  induction nodes generalizing x y with
  | nil => simp [causalOrderLoop]
  | cons p nodes ih =>
    rw [causalOrderLoop]
    simp only [ih]
    rcases lt_trichotomy (vc.get p) (other.get p) with hlt | heq | hgt
    · cases x <;> simp [hlt, hlt.le, hlt.not_ge, hlt.not_gt, verdict]
    · cases x <;> cases y <;> simp [heq, verdict]
    · cases y <;> simp [hgt, hgt.le, hgt.not_ge, hgt.not_gt, verdict]

theorem le_iff_all {vc other : VectorClock NodeId} {nodes : List NodeId}
    (hnodes : ∀ p ∈ vc.entries.keys, p ∈ nodes) :
    vc ≤ other ↔ nodes.all (fun p => vc.get p ≤ other.get p) = true := by
  simp only [List.all_eq_true, decide_eq_true_eq]
  refine ⟨fun h p _ => h p, fun h p => ?_⟩
  by_cases hp : p ∈ vc.entries.keys
  · exact h p (hnodes p hp)
  · rw [Std.ExtTreeMap.mem_keys, Std.ExtTreeMap.mem_iff_isSome_getElem?] at hp
    rw [get, OrderedMap.getD_eq, not_isSome_iff_eq_none.mp hp]
    exact Nat.zero_le _

theorem causalOrder_iff (vc other : VectorClock NodeId) :
    (vc.causalOrder other = .before ↔ vc < other) ∧
      (vc.causalOrder other = .equal ↔ vc ≤ other ∧ other ≤ vc) ∧
      (vc.causalOrder other = .after ↔ other < vc) := by
  rw [causalOrder, causalOrderLoop_eq, lt_iff_le_not_ge, lt_iff_le_not_ge, le_iff_all fun p => List.mem_append_left _,
    le_iff_all fun p => List.mem_append_right _, Bool.true_and, Bool.true_and]
  cases List.all _ _ <;> cases List.all _ _ <;> simp [verdict]

end VectorClock

structure CausalTracker (NodeId : Type) [LinearOrder NodeId] where
  node : NodeId
  clock : VectorClock NodeId

namespace CausalTracker

def new (node : NodeId) : CausalTracker NodeId := ⟨node, .new⟩

def recordLocalEvent (tracker : CausalTracker NodeId) :
    Option (CausalTracker NodeId × VectorClock NodeId) := do
  let (_, clock) ← tracker.clock.increment tracker.node
  some ({ tracker with clock }, clock)

def onSend (tracker : CausalTracker NodeId) :
    Option (CausalTracker NodeId × VectorClock NodeId) :=
  tracker.recordLocalEvent

/-- The time of a receive is the clock it leaves. -/
def onReceive (tracker : CausalTracker NodeId) (remoteClock : VectorClock NodeId) :
    Option (CausalTracker NodeId × VectorClock NodeId) := do
  let clock ← tracker.clock.receive tracker.node remoteClock
  some ({ tracker with clock }, clock)

def trackers : Clock (CausalTracker NodeId) Nat (VectorClock NodeId) :=
  ⟨fun tracker _ => tracker.onSend, fun tracker _ => tracker.onReceive⟩

theorem onSend_spec {tracker tracker' : CausalTracker NodeId} {t : VectorClock NodeId}
    (h : tracker.onSend = some (tracker', t)) :
    tracker' = ⟨tracker.node, t⟩ ∧
      t.get = update tracker.clock.get tracker.node (tracker.clock.get tracker.node + 1) := by
  obtain ⟨⟨entry, clock⟩, hclock, h⟩ := bind_eq_some_iff.mp h
  cases h
  exact ⟨rfl, VectorClock.get_increment hclock⟩

theorem onReceive_spec {tracker tracker' : CausalTracker NodeId} {sent t : VectorClock NodeId}
    (h : tracker.onReceive sent = some (tracker', t)) :
    tracker' = ⟨tracker.node, t⟩ ∧
      t.get = update (tracker.clock.get ⊔ sent.get) tracker.node
        ((tracker.clock.get ⊔ sent.get) tracker.node + 1) := by
  obtain ⟨clock, hclock, h⟩ := bind_eq_some_iff.mp h
  cases h
  obtain ⟨⟨entry, vc⟩, hvc, hclock⟩ := bind_eq_some_iff.mp hclock
  cases hclock
  refine ⟨rfl, ?_⟩
  rw [VectorClock.get_increment hvc, VectorClock.get_mergeIn]

theorem advances :
    (trackers : Clock (CausalTracker NodeId) Nat (VectorClock NodeId)).Advances clock where
  tick h := by
    obtain ⟨rfl, hget⟩ := onSend_spec h
    refine ⟨?_, rfl⟩
    change VectorClock.get _ < VectorClock.get _
    rw [hget, lt_update_self_iff]
    exact Nat.lt_succ_self _
  receive {tracker _ sent _ t} h := by
    obtain ⟨rfl, hget⟩ := onReceive_spec h
    have hlt : tracker.clock.get ⊔ sent.get < t.get := by
      rw [hget, lt_update_self_iff]
      exact Nat.lt_succ_self _
    exact ⟨le_sup_left.trans_lt hlt, le_sup_right.trans_lt hlt, rfl⟩

/-- How the components of the clocks tell the causal past. -/
structure Tracks (s : Execution NodeId (CausalTracker NodeId) (VectorClock NodeId)) : Prop where
  node : ∀ p, (s.clocks p).node = p
  own : ∀ p q, (s.clocks q).clock.get p ≤ (s.clocks p).clock.get p
  ordered : Ordered clock s
  known : ∀ {i : Nat} {x : Entry _ _}, s.log[i]? = some x →
    ∀ q, x.time.get x.node ≤ (s.clocks q).clock.get x.node →
      ∃ j y, s.log[j]? = some y ∧ y.node = q ∧ (i = j ∨ HappensBefore s.log i j)
  reached : ∀ {i j : Nat} {x y : Entry _ _}, s.log[i]? = some x → s.log[j]? = some y →
    x.time.get x.node ≤ y.time.get x.node → i = j ∨ HappensBefore s.log i j

section Step

variable {s : Execution NodeId (CausalTracker NodeId) (VectorClock NodeId)}
  {e : Entry NodeId (VectorClock NodeId)} {c : CausalTracker NodeId}

/-- A new stamp raises the component of its node; the others come from the tracker or from
the message. -/
theorem stamped_spec (hnode : (s.clocks e.node).node = e.node) (h : Stamped trackers s e c) :
    c = ⟨e.node, e.time⟩ ∧ (s.clocks e.node).clock.get e.node < e.time.get e.node ∧
      ∀ p ≠ e.node, e.time.get p = (s.clocks e.node).clock.get p ∨
        ∃ i sent, e.kind = .receive i ∧ s.log[i]? = some sent ∧ e.time.get p = sent.time.get p := by
  cases h with
  | tick _ _ h =>
    obtain ⟨rfl, hget⟩ := onSend_spec h
    rw [hnode] at hget ⊢
    rw [hget, update_self]
    exact ⟨rfl, Nat.lt_succ_self _, fun p hp => .inl (update_of_ne hp _ _)⟩
  | receive _ hkind hsent _ h =>
    obtain ⟨rfl, hget⟩ := onReceive_spec h
    rw [hnode] at hget ⊢
    rw [hget, update_self]
    refine ⟨rfl, Nat.lt_succ_of_le (Nat.le_max_left ..), fun p hp => ?_⟩
    rw [update_of_ne hp]
    exact (max_choice _ _).imp_right fun hmax => ⟨_, _, hkind, hsent, hmax⟩

theorem Tracks.time_le (hs : Tracks s) {j : Nat} {y : Entry NodeId (VectorClock NodeId)}
    (hy : s.log[j]? = some y) (p : NodeId) : y.time.get p ≤ (s.clocks p).clock.get p :=
  (hs.ordered.latest hy p).trans (hs.own p y.node)

/-- What the new stamp has reached lies before it. -/
theorem Tracks.before_new (hs : Tracks s) (h : Stamped trackers s e c) {i : Nat}
    {x : Entry NodeId (VectorClock NodeId)} (hx : s.log[i]? = some x)
    (hle : x.time.get x.node ≤ e.time.get x.node) :
    HappensBefore (s.log ++ [e]) i s.log.length := by
  by_cases hnode : x.node = e.node
  · exact .single (.to_new hx (.inl hnode))
  rcases (stamped_spec (hs.node e.node) h).2.2 x.node hnode with hget | ⟨m, sent, hkind, hm, hget⟩
  · obtain ⟨j, y, hy, hq, hij⟩ := hs.known hx e.node (hget ▸ hle)
    exact .to_new hij hy (.inl hq)
  · exact .to_new (hs.reached hx hm (hget ▸ hle)) hm (.inr hkind)

theorem Tracks.step (hs : Tracks s) (h : Stamped trackers s e c) :
    Tracks ⟨update s.clocks e.node c, s.log ++ [e]⟩ := by
  obtain ⟨rfl, hraise, hother⟩ := stamped_spec (hs.node e.node) h
  constructor
  · intro p
    dsimp only
    rcases eq_or_ne p e.node with rfl | hp
    · rw [update_self]
    · rw [update_of_ne hp, hs.node]
  · intro p q
    dsimp only
    rcases eq_or_ne q e.node with rfl | hq <;> rcases eq_or_ne p e.node with rfl | hp
    · exact le_rfl
    · rw [update_self, update_of_ne hp]
      rcases hother p hp with hget | ⟨_, _, -, hsent, hget⟩
      · exact hget ▸ hs.own p e.node
      · exact hget ▸ hs.time_le hsent p
    · rw [update_self, update_of_ne hq]
      exact (hs.own e.node q).trans hraise.le
    · rw [update_of_ne hq, update_of_ne hp]
      exact hs.own p q
  · exact advances.ordered_step hs.ordered h
  · intro i x hx q hle
    dsimp only at *
    rcases eq_or_ne q e.node with rfl | hq
    · rw [update_self] at hle
      refine ⟨_, _, List.getElem?_concat_length, rfl, ?_⟩
      rcases getElem?_concat_cases hx with hx | ⟨rfl, -⟩
      · exact .inr (hs.before_new h hx hle)
      · exact .inl rfl
    · rw [update_of_ne hq] at hle
      rcases getElem?_concat_cases hx with hx | ⟨-, rfl⟩
      · obtain ⟨j, y, hy, hyq, hij⟩ := hs.known hx q hle
        exact ⟨j, y, getElem?_snoc hy, hyq, hij.imp_right .snoc⟩
      · exact absurd hle (((hs.own e.node q).trans_lt hraise).not_ge)
  · intro i j x y hx hy hle
    rcases getElem?_concat_cases hx with hx | ⟨rfl, rfl⟩ <;>
      rcases getElem?_concat_cases hy with hy | ⟨rfl, rfl⟩
    · exact (hs.reached hx hy hle).imp_right .snoc
    · exact .inr (hs.before_new h hx hle)
    · exact absurd hle (((hs.time_le hy e.node).trans_lt hraise).not_ge)
    · exact .inl rfl

theorem Tracks.of_reachable (h : (executions trackers new).Reachable s) : Tracks s := by
  refine h.invariant ?_ ?_
  · rintro _ rfl
    exact ⟨fun _ => rfl, fun _ _ => le_rfl, ⟨nofun, nofun⟩, nofun, nofun⟩
  · rintro u e _ hu ⟨c, hstamp, rfl⟩
    exact hu.step hstamp

end Step

end CausalTracker

/-- Along every execution that no overflow stops, happens-before implies smaller Lamport
and hybrid times, for all starting points and time sources, and is the order of the
vector clocks. -/
theorem clocks_reflect_causality :
    (∀ (start : NodeId → LamportClock) s, (executions LamportClock.clock start).Reachable s →
        ∀ i j x y, s.log[i]? = some x → s.log[j]? = some y →
          HappensBefore s.log i j → x.time < y.time) ∧
      (∀ (start : NodeId → Nat) s,
        (executions HybridState.clock fun node => .new (start node)).Reachable s →
        ∀ i j x y, s.log[i]? = some x → s.log[j]? = some y →
          HappensBefore s.log i j → x.time < y.time) ∧
      ∀ s : Execution NodeId _ _, (executions CausalTracker.trackers .new).Reachable s →
        ∀ i j x y, s.log[i]? = some x → s.log[j]? = some y →
          (HappensBefore s.log i j ↔ x.time.causalOrder y.time = .before) ∧
            (i ≠ j → x.time.causalOrder y.time ≠ .equal) := by
  refine ⟨fun start s h i j x y hx hy hij => (LamportClock.advances.ordered h).time_lt hij hx hy,
    fun start s h i j x y hx hy hij => (HybridState.advances.ordered h).time_lt hij hx hy,
    fun s h i j x y hx hy => ?_⟩
  have hs := CausalTracker.Tracks.of_reachable h
  have hforth : HappensBefore s.log i j → x.time < y.time := fun hij =>
    hs.ordered.time_lt hij hx hy
  have hback : i ≠ j → x.time ≤ y.time → HappensBefore s.log i j := fun hne hle =>
    (hs.reached hx hy (hle x.node)).resolve_left hne
  rw [(VectorClock.causalOrder_iff _ _).1]
  refine ⟨⟨hforth, fun hlt => hback ?_ hlt.le⟩, fun hne heq => ?_⟩
  · rintro rfl
    cases hx.symm.trans hy
    exact lt_irrefl _ hlt
  · obtain ⟨hle, hge⟩ := (VectorClock.causalOrder_iff _ _).2.1.mp heq
    exact (hforth (hback hne hle)).not_ge hge

end Asupersync
