import Mathlib.Data.Finset.Lattice.Fold

/-!
# Replicas that exchange their states

Any number of replicas update their own state and exchange whole states.  A replica
may publish its state at any time, and a published state may be delivered to any
replica, at any later time and any number of times.

The same protocol is run over sets of event numbers to say which updates a replica
has received (`received`): an update adds its own number and a delivery takes the
union.

**Results.**  If the states map to a join-semilattice so that updates only go up and
a merge is a join, then the state of a replica is the join of what the updates it has
received left behind (`exists_posts`), so replicas that have received the same updates
agree; and so do replicas that have merged each other (`agree_of_exchange`).
-/

namespace Asupersync

open List Function
namespace Lib
namespace Gossip

variable {ι σ Op : Type} [DecidableEq ι]

/-- The replicas and the states that have been published, oldest first. -/
structure Cluster (ι σ : Type) where
  replica : ι → σ
  published : List σ

inductive Event (ι Op : Type) where
  | update (i : ι) (op : Op)
  | publish (i : ι)
  | deliver (i : ι) (k : Nat)

/-- The state at a replica changes, nothing else does. -/
def Cluster.set (c : Cluster ι σ) (i : ι) (s : σ) : Cluster ι σ :=
  { c with replica := Function.update c.replica i s }

section Protocol

variable (apply : Op → σ → σ) (merge : σ → σ → σ)

/-- Delivering something that was never published does nothing. -/
def step (c : Cluster ι σ) : Event ι Op → Cluster ι σ
  | .update i op => c.set i (apply op (c.replica i))
  | .publish i => { c with published := c.published ++ [c.replica i] }
  | .deliver i k =>
    match c.published[k]? with
    | some s => c.set i (merge (c.replica i) s)
    | none => c

def run (c : Cluster ι σ) (events : List (Event ι Op)) : Cluster ι σ :=
  events.foldl (step apply merge) c

theorem run_snoc (c : Cluster ι σ) (events : List (Event ι Op)) (event : Event ι Op) :
    run apply merge c (events ++ [event]) = step apply merge (run apply merge c events) event :=
  foldl_append

/-- What a step does to a replica: nothing, an update of its own, or a merge. -/
theorem replica_step_cases (c : Cluster ι σ) (event : Event ι Op) (j : ι) :
    (step apply merge c event).replica j = c.replica j ∨
      (∃ op, event = .update j op ∧ (step apply merge c event).replica j = apply op (c.replica j)) ∨
      ∃ k s, event = .deliver j k ∧ c.published[k]? = some s ∧
        (step apply merge c event).replica j = merge (c.replica j) s := by
  cases event with
  | update i op =>
    by_cases hj : j = i
    · subst hj
      exact .inr (.inl ⟨op, rfl, by simp [step, Cluster.set]⟩)
    · exact .inl (by simp [step, Cluster.set, hj])
  | publish i => exact .inl rfl
  | deliver i k =>
    cases hk : c.published[k]? with
    | none => exact .inl (by simp [step, hk])
    | some s =>
      by_cases hj : j = i
      · subst hj
        exact .inr (.inr ⟨k, s, rfl, hk, by simp [step, hk, Cluster.set]⟩)
      · exact .inl (by simp [step, hk, Cluster.set, hj])

/-- A state of the cluster: of a replica, or published. -/
def Cluster.Holds (c : Cluster ι σ) (s : σ) : Prop := (∃ i, c.replica i = s) ∨ s ∈ c.published

/-- What every state of the cluster has and every update and merge keeps, every state
of the cluster has after a step. -/
theorem holds_step {I : σ → Prop} {c : Cluster ι σ} {event : Event ι Op}
    (hupdate : ∀ i op, event = .update i op → I (c.replica i) → I (apply op (c.replica i)))
    (hmerge : ∀ i k s, event = .deliver i k → c.published[k]? = some s →
      I (c.replica i) → I s → I (merge (c.replica i) s)) (hc : ∀ s, c.Holds s → I s) :
    ∀ s, (step apply merge c event).Holds s → I s := by
  have hreplica (i : ι) : I (c.replica i) := hc _ (.inl ⟨i, rfl⟩)
  rintro s (⟨j, rfl⟩ | hs)
  · rcases replica_step_cases apply merge c event j with
      heq | ⟨op, hevent, heq⟩ | ⟨k, t, hevent, hk, heq⟩
    · rw [heq]
      exact hreplica j
    · rw [heq]
      exact hupdate j op hevent (hreplica j)
    · rw [heq]
      exact hmerge j k t hevent hk (hreplica j) (hc t (.inr (mem_of_getElem? hk)))
  · cases event with
    | update i op => exact hc s (.inr hs)
    | publish i =>
      rcases mem_append.mp hs with hs | hs
      · exact hc s (.inr hs)
      · rw [mem_singleton.mp hs]
        exact hreplica i
    | deliver i k =>
      simp only [step] at hs
      split at hs
      · exact hc s (.inr hs)
      · exact hc s (.inr hs)

end Protocol

/-! ## Which updates have been received -/

/-- The event with its update replaced by its number. -/
def Event.number (n : Nat) : Event ι Op → Event ι Nat
  | .update i _ => .update i n
  | .publish i => .publish i
  | .deliver i k => .deliver i k

/-- For every replica and every published state the numbers of the updates in it. -/
def received (events : List (Event ι Op)) : Cluster ι (Finset Nat) :=
  run (fun n seen => insert n seen) (fun seen more => seen ∪ more)
    { replica := fun _ => ∅, published := [] } (events.mapIdx Event.number)

theorem received_snoc (events : List (Event ι Op)) (event : Event ι Op) :
    received (events ++ [event]) =
      step (fun n seen => insert n seen) (fun seen more => seen ∪ more) (received events)
        (event.number events.length) := by
  unfold received
  rw [mapIdx_append, mapIdx_cons, mapIdx_nil, Nat.zero_add, run_snoc]

section Convergence

variable {S : Type} [SemilatticeSup S] [OrderBot S]

/-- Every replica and every published state is the join of `post` over what it has
received. -/
structure Joined (view : σ → S) (post : Nat → S) (c : Cluster ι σ)
    (seen : Cluster ι (Finset Nat)) : Prop where
  replica : ∀ i, view (c.replica i) = (seen.replica i).sup post
  published : c.published.map view = seen.published.map (fun s => s.sup post)

/-- All numbers received are below `n`. -/
def Below (n : Nat) (seen : Cluster ι (Finset Nat)) : Prop :=
  ∀ s, seen.Holds s → ∀ m ∈ s, m < n

theorem below_received (events : List (Event ι Op)) : Below events.length (received events) := by
  induction events using reverseRecOn with
  | nil =>
    rintro s (⟨i, rfl⟩ | hs)
    · intro m hm
      cases hm
    · cases hs
  | append_singleton events event ih =>
    rw [received_snoc, length_append, length_singleton]
    refine holds_step _ _ ?_ ?_ (fun s hs m hm => (ih s hs m hm).trans (Nat.lt_succ_self _))
    · intro i n heq hi m hm
      have hn : n = events.length := by
        cases event <;> cases heq
        rfl
      rcases Finset.mem_insert.mp hm with rfl | hm
      · omega
      · exact hi m hm
    · intro i k s _ _ hi hs m hm
      rcases Finset.mem_union.mp hm with hm | hm
      · exact hi m hm
      · exact hs m hm

variable {post : Nat → S} {c : Cluster ι σ} {seen : Cluster ι (Finset Nat)}

omit [DecidableEq ι] in
/-- Changing what a later update left behind changes nothing received so far. -/
theorem Joined.update {view : σ → S} {n : Nat} (hbelow : Below n seen) (h : Joined view post c seen)
    (x : S) : Joined view (Function.update post n x) c seen := by
  have hsame (s : Finset Nat) (hs : seen.Holds s) :
      s.sup (Function.update post n x) = s.sup post := by
    apply Finset.sup_congr rfl
    intro m hm
    exact Function.update_of_ne (hbelow s hs m hm).ne _ _
  constructor
  · intro i
    rw [hsame _ (.inl ⟨i, rfl⟩)]
    exact h.replica i
  · rw [h.published]
    exact map_congr_left (fun s hs => (hsame s (.inr hs)).symm)

theorem Joined.set {view : σ → S} (h : Joined view post c seen) (i : ι) {t : σ} {s : Finset Nat}
    (ht : view t = s.sup post) :
    Joined view post (c.set i t) (seen.set i s) := by
  refine ⟨?_, h.published⟩
  intro j
  by_cases hj : j = i
  · subst hj
    simpa [Cluster.set] using ht
  · simpa [Cluster.set, hj] using h.replica j

variable {apply : Op → σ → σ} {merge : σ → σ → σ} {view : σ → S}

theorem joined_step {n : Nat} {event : Event ι Op} (hbelow : Below n seen)
    (hup : ∀ i op, event = .update i op → view (c.replica i) ≤ view (apply op (c.replica i)))
    (hmerge : ∀ s t, view (merge s t) = view s ⊔ view t) (h : Joined view post c seen) :
    ∃ post', Joined view post' (step apply merge c event)
      (step (fun n seen => insert n seen) (fun seen more => seen ∪ more) seen
        (event.number n)) := by
  cases event with
  | update i op =>
    -- The update itself is what the new number left behind.
    refine ⟨update post n (view (apply op (c.replica i))), ?_⟩
    have h' := h.update hbelow (view (apply op (c.replica i)))
    refine h'.set i ?_
    rw [Finset.sup_insert, update_self, ← h'.replica i]
    exact (sup_eq_left.mpr (hup i op rfl)).symm
  | publish i =>
    refine ⟨post, h.replica, ?_⟩
    simp only [step, Event.number, map_append, map_cons, map_nil]
    rw [h.published, h.replica i]
  | deliver i k =>
    refine ⟨post, ?_⟩
    have hk : (c.published[k]?).map view = (seen.published[k]?).map (fun s => s.sup post) := by
      rw [← getElem?_map, ← getElem?_map, h.published]
    simp only [step, Event.number]
    cases hc : c.published[k]? with
    | none =>
      rw [hc] at hk
      rw [Option.map_eq_none_iff.mp hk.symm]
      exact h
    | some t =>
      rw [hc] at hk
      obtain ⟨s, hs, hst⟩ := Option.map_eq_some_iff.mp hk.symm
      rw [hs]
      refine h.set i ?_
      rw [hmerge, Finset.sup_union, h.replica i, ← hst]

/-- The state of a replica is the join of what the updates it has received left
behind. -/
theorem exists_posts (hstart : ∀ i, view (c.replica i) = ⊥) (hnone : c.published = [])
    (events : List (Event ι Op))
    (hup : ∀ before i op after, events = before ++ .update i op :: after →
      view ((run apply merge c before).replica i) ≤
        view (apply op ((run apply merge c before).replica i)))
    (hmerge : ∀ s t, view (merge s t) = view s ⊔ view t) :
    ∃ post, Joined view post (run apply merge c events) (received events) := by
  induction events using reverseRecOn with
  | nil =>
    refine ⟨fun _ => ⊥, ?_, ?_⟩
    · intro i
      exact hstart i
    · exact congrArg (List.map view) hnone
  | append_singleton events event ih =>
    obtain ⟨post, h⟩ := ih (fun before i op after hsplit =>
      hup before i op (after ++ [event]) (by rw [hsplit]; simp))
    rw [run_snoc, received_snoc]
    refine joined_step (below_received events) ?_ hmerge h
    rintro i op rfl
    exact hup events i op [] rfl

end Convergence

section Exchange

variable {merge : σ → σ → σ} {s : ι → σ}

/-- The first replica merges the present state of the second. -/
def exchange (merge : σ → σ → σ) (s : ι → σ) (p : ι × ι) : ι → σ :=
  Function.update s p.1 (merge (s p.1) (s p.2))

/-- What all states have and a merge keeps, all states have after any merges. -/
theorem exchange_invariant {I : σ → Prop} (hmerge : ∀ a b, I a → I b → I (merge a b))
    (hs : ∀ i, I (s i)) (pairs : List (ι × ι)) (i : ι) : I (pairs.foldl (exchange merge) s i) := by
  induction pairs generalizing s with
  | nil => exact hs i
  | cons p pairs ih =>
    refine ih fun j => ?_
    rw [exchange]
    rcases eq_or_ne j p.1 with rfl | hne
    · rw [update_self]
      exact hmerge _ _ (hs _) (hs _)
    · rw [update_of_ne hne]
      exact hs j

variable {S : Type} [SemilatticeSup S] {view : σ → S}
  (hmerge : ∀ a b, view (merge a b) = view a ⊔ view b)

include hmerge

theorem le_exchange (pairs : List (ι × ι)) (i : ι) :
    view (s i) ≤ view (pairs.foldl (exchange merge) s i) := by
  induction pairs generalizing s with
  | nil => exact le_rfl
  | cons p pairs ih =>
    refine le_trans ?_ ih
    rw [exchange]
    rcases eq_or_ne i p.1 with rfl | hne
    · rw [update_self, hmerge]
      exact le_sup_left
    · rw [update_of_ne hne]

theorem le_exchange_of_mem {pairs : List (ι × ι)} {i j : ι} (h : (i, j) ∈ pairs) :
    view (s j) ≤ view (pairs.foldl (exchange merge) s i) := by
  obtain ⟨before, after, rfl⟩ := append_of_mem h
  rw [foldl_append, foldl_cons]
  calc view (s j) ≤ view (before.foldl (exchange merge) s j) := le_exchange hmerge before j
    _ ≤ view (exchange merge (before.foldl (exchange merge) s) (i, j) i) := by
        rw [exchange, update_self, hmerge]
        exact le_sup_right
    _ ≤ _ := le_exchange hmerge after i

/-- Replicas that have all merged each other agree. -/
theorem agree_of_exchange {pairs : List (ι × ι)} (hall : ∀ i j, i ≠ j → (i, j) ∈ pairs) (i j : ι) :
    view (pairs.foldl (exchange merge) s i) = view (pairs.foldl (exchange merge) s j) := by
  have hle : ∀ i j, view (pairs.foldl (exchange merge) s i) ≤
      view (pairs.foldl (exchange merge) s j) := by
    intro i j
    -- the final state of `j` bounds all states at the start, so it bounds them always
    refine exchange_invariant (I := fun a => view a ≤ view (pairs.foldl (exchange merge) s j))
      (fun a b ha hb => ?_) (fun k => ?_) pairs i
    · rw [hmerge]
      exact sup_le ha hb
    · rcases eq_or_ne j k with rfl | hne
      · exact le_exchange hmerge pairs j
      · exact le_exchange_of_mem hmerge (hall j k hne)
  exact le_antisymm (hle i j) (hle j i)

end Exchange

end Gossip
end Lib
end Asupersync
