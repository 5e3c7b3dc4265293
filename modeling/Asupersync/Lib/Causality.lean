import Mathlib.Logic.Relation
import Mathlib.Order.Basic
import Asupersync.Lib.TransitionSystem

/-!
# Message-passing executions and logical clocks

Nodes take internal steps, send, and receive earlier sends; each event is stamped by the
clock of its node.  A clock that moves above what it showed and above what it is sent
gives later times to later events, in whatever order the times have.
-/

namespace Asupersync

namespace Lib
namespace Causality

/-- What an event does; a receive names the event whose message it takes. -/
inductive Kind where
  | internal
  | send
  | receive (sent : Nat)
deriving DecidableEq, Repr

structure Entry (N T : Type) where
  node : N
  kind : Kind
  time : T

variable {N C R T : Type}

/-- The order of a node's events, and of a send and its receives. -/
def Direct (log : List (Entry N T)) (i j : Nat) : Prop :=
  ∃ x y, log[i]? = some x ∧ log[j]? = some y ∧ i < j ∧ (x.node = y.node ∨ y.kind = .receive i)

def HappensBefore (log : List (Entry N T)) : Nat → Nat → Prop := Relation.TransGen (Direct log)

/-- A clock that is given the reading of a time source stamps an event, or stops with an
overflow. -/
structure Clock (C R T : Type) where
  tick : C → R → Option (C × T)
  receive : C → R → T → Option (C × T)

/-- The clock of every node and the events so far. -/
structure Execution (N C T : Type) where
  clocks : N → C
  log : List (Entry N T)

variable {L : Clock C R T} {s : Execution N C T} {e : Entry N T} {c : C}

/-- The next event, stamped by the clock of its node; the readings are arbitrary. -/
inductive Stamped (L : Clock C R T) (s : Execution N C T) (e : Entry N T) (c : C) : Prop
  | tick (reading : R) (hkind : ∀ i, e.kind ≠ .receive i)
      (h : L.tick (s.clocks e.node) reading = some (c, e.time))
  | receive (reading : R) {i : Nat} {sent : Entry N T} (hkind : e.kind = .receive i)
      (hsent : s.log[i]? = some sent) (hsend : sent.kind = .send)
      (h : L.receive (s.clocks e.node) reading sent.time = some (c, e.time))

/-- The executions of nodes with the given clocks. -/
def executions [DecidableEq N] (L : Clock C R T) (start : N → C) :
    TransitionSystem (Execution N C T) (Entry N T) where
  init s := s = ⟨start, []⟩
  step s e s' := ∃ c, Stamped L s e c ∧ s' = ⟨Function.update s.clocks e.node c, s.log ++ [e]⟩

section Growth

variable {log : List (Entry N T)} {new x : Entry N T} {i j : Nat}

theorem getElem?_snoc (h : log[i]? = some x) : (log ++ [new])[i]? = some x := by
  rw [List.getElem?_append_left (List.getElem?_eq_some_iff.mp h).1, h]

theorem Direct.snoc (h : Direct log i j) : Direct (log ++ [new]) i j := by
  obtain ⟨x, y, hx, hy, hlt, hedge⟩ := h
  exact ⟨x, y, getElem?_snoc hx, getElem?_snoc hy, hlt, hedge⟩

theorem HappensBefore.snoc (h : HappensBefore log i j) : HappensBefore (log ++ [new]) i j :=
  Relation.TransGen.mono (fun _ _ => Direct.snoc) _ _ h

/-- The edges to the newest event. -/
theorem Direct.to_new (hx : log[i]? = some x) (h : x.node = new.node ∨ new.kind = .receive i) :
    Direct (log ++ [new]) i log.length :=
  ⟨x, new, getElem?_snoc hx, List.getElem?_concat_length,
    (List.getElem?_eq_some_iff.mp hx).1, h⟩

/-- What leads to an event that comes before the newest leads to the newest. -/
theorem HappensBefore.to_new {y : Entry N T} (hij : i = j ∨ HappensBefore log i j)
    (hy : log[j]? = some y) (h : y.node = new.node ∨ new.kind = .receive j) :
    HappensBefore (log ++ [new]) i log.length := by
  have hlast := Direct.to_new hy h
  rcases hij with rfl | hij
  · exact .single hlast
  · exact .tail hij.snoc hlast

end Growth

/-! ## Clocks that advance -/

section Advances

variable [Preorder T] {now : C → T}

structure Clock.Advances (L : Clock C R T) (now : C → T) : Prop where
  tick : ∀ {c r c' t}, L.tick c r = some (c', t) → now c < t ∧ now c' = t
  receive : ∀ {c r sent c' t}, L.receive c r sent = some (c', t) →
    now c < t ∧ sent < t ∧ now c' = t

structure Ordered (now : C → T) (s : Execution N C T) : Prop where
  latest : ∀ {i : Nat} {x : Entry N T}, s.log[i]? = some x → x.time ≤ now (s.clocks x.node)
  edge : ∀ {i j : Nat} {x y : Entry N T}, Direct s.log i j → s.log[i]? = some x →
    s.log[j]? = some y → x.time < y.time

variable [DecidableEq N]

theorem Clock.Advances.ordered_step (hL : L.Advances now) (hs : Ordered now s)
    (hstamp : Stamped L s e c) :
    Ordered now ⟨Function.update s.clocks e.node c, s.log ++ [e]⟩ := by
  have hclock : now (s.clocks e.node) < e.time ∧ now c = e.time := by
    cases hstamp with
    | tick _ _ h => exact hL.tick h
    | receive _ _ _ _ h => exact ⟨(hL.receive h).1, (hL.receive h).2.2⟩
  constructor
  · intro i x hx
    dsimp only
    rcases getElem?_concat_cases hx with hx | ⟨-, rfl⟩
    · by_cases hnode : x.node = e.node
      · rw [hnode, Function.update_self, hclock.2]
        exact (hnode ▸ hs.latest hx).trans hclock.1.le
      · rw [Function.update_of_ne hnode]
        exact hs.latest hx
    · rw [Function.update_self, hclock.2]
  · rintro i j x y ⟨x', y', hx', hy', hlt, hedge⟩ hx hy
    cases hx'.symm.trans hx
    cases hy'.symm.trans hy
    have hi : s.log[i]? = some x := by
      have hj := (List.getElem?_eq_some_iff.mp hy).1
      rw [List.length_append, List.length_singleton] at hj
      rwa [List.getElem?_append_left (by omega)] at hx
    rcases getElem?_concat_cases hy with hj | ⟨rfl, rfl⟩
    · exact hs.edge ⟨x, y, hi, hj, hlt, hedge⟩ hi hj
    · rcases hedge with hnode | hkind
      · exact (hnode ▸ hs.latest hi).trans_lt hclock.1
      · cases hstamp with
        | tick _ hno => exact absurd hkind (hno i)
        | receive _ hkind' hsent _ h =>
          cases hkind'.symm.trans hkind
          cases hsent.symm.trans hi
          exact (hL.receive h).2.1

theorem Clock.Advances.ordered (hL : L.Advances now) {start : N → C}
    (h : (executions L start).Reachable s) : Ordered now s := by
  refine h.invariant ?_ ?_
  · rintro _ rfl
    exact ⟨nofun, nofun⟩
  · rintro u e _ hu ⟨c, hstamp, rfl⟩
    exact hL.ordered_step hu hstamp

omit [DecidableEq N] in
theorem Ordered.time_lt (hs : Ordered now s) {i j : Nat} (h : HappensBefore s.log i j)
    {x y : Entry N T} (hx : s.log[i]? = some x) (hy : s.log[j]? = some y) : x.time < y.time := by
  induction h generalizing y with
  | single hedge => exact hs.edge hedge hx hy
  | tail _ hedge ih =>
    obtain ⟨z, -, hz, -⟩ := id hedge
    exact (ih hz).trans (hs.edge hedge hz hy)

end Advances

end Causality
end Lib
end Asupersync
