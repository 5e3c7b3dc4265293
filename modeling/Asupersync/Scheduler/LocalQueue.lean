import Asupersync.Record.Task
import Asupersync.Lib.TransitionSystem
import Mathlib.Algebra.BigOperators.Fin
import Mathlib.Algebra.Order.BigOperators.Group.Multiset
import Mathlib.Data.Multiset.Pairwise

/-!
# Local queues and work stealing

The per-worker queue: a vector with a presence set beside it.  The owner pushes
and pops at the back, thieves scan a short stretch at the front and skip the
tasks that are pinned to their worker.

**Algorithm.**  A steal walks over at most `skippedLocalsInlineCap` entries.
Pinned entries are moved down over the gaps left by stolen ones
(`stealBatchLoop`), and `compactScannedPrefix` closes the gap behind the scanned
part.

**System.**  `queueSystem` runs the lock-guarded steps of any finite family of
queues in any order.  Every steal reads its own snapshot of the task arena, since
other code may change the arena between two steps.

**Results.**
* `steal_spec`, `stealBatch_spec`: what one steal takes and what it keeps.
* `work_stealing_conserves`: nothing is lost or duplicated along any run.
-/

namespace Asupersync

open Lib Function List

/-- What a lookup in the shared task arena returns. -/
abbrev TaskArenaView := TaskId → Option TaskRecord

/-- The record exists and is pinned to its worker. -/
def pinned (arena : TaskArenaView) (task : TaskId) : Bool :=
  match arena task with
  | some record => record.isLocal
  | none => false

/-- Queue storage, presence index and the published length. -/
structure LocalQueue where
  queue : List TaskId
  presence : Finset TaskId
  cachedLen : Nat

namespace LocalQueue

def new : LocalQueue := { queue := [], presence := ∅, cachedLen := 0 }

/-- How many entries a thief inspects. -/
def skippedLocalsInlineCap : Nat := 8

/-- Appends a task unless it is present already. -/
def pushEntry (q : LocalQueue) (task : TaskId) : LocalQueue :=
  if task ∈ q.presence then q
  else { q with queue := q.queue ++ [task], presence := insert task q.presence }

/-- Publishes the length at the end of a critical section. -/
def publish (q : LocalQueue) : LocalQueue :=
  { q with cachedLen := q.queue.length }

def push (q : LocalQueue) (task : TaskId) : LocalQueue :=
  (q.pushEntry task).publish

def pushMany (q : LocalQueue) (tasks : List TaskId) : LocalQueue :=
  if tasks.isEmpty then q else (tasks.foldl pushEntry q).publish

/-- The locked part of `pop`. -/
def pop (q : LocalQueue) : LocalQueue × Option TaskId :=
  match q.queue.getLast? with
  | none => (q.publish, none)
  | some task =>
    ({ q with queue := q.queue.dropLast, presence := q.presence.erase task }.publish,
      some task)

/-- Drops the entries between the kept ones and the end of the scanned part. -/
def compactScannedPrefix (queue : List TaskId) (keptLen scannedLen : Nat) : List TaskId :=
  if keptLen = scannedLen then queue else queue.take keptLen ++ queue.drop scannedLen

/-- Moves a pinned entry down to the end of the kept ones. -/
def keepEntry (queue : List TaskId) (keptLen scannedLen : Nat) (task : TaskId) :
    List TaskId :=
  if keptLen = scannedLen then queue else queue.set keptLen task

/-- Where a scan has got to. -/
structure Scan where
  queue : List TaskId
  keptLen : Nat
  scannedLen : Nat
  stolen : List TaskId

/-- The scan of `steal`: skip pinned entries, stop at the first other one. -/
def stealLoop (arena : TaskArenaView) : Nat → Scan → Scan
  | 0, s => s
  | fuel + 1, s =>
    match s.queue[s.scannedLen]? with
    | none => s
    | some task =>
      if pinned arena task then
        stealLoop arena fuel
          { s with
            queue := keepEntry s.queue s.keptLen s.scannedLen task
            keptLen := s.keptLen + 1
            scannedLen := s.scannedLen + 1 }
      else
        { s with scannedLen := s.scannedLen + 1, stolen := s.stolen ++ [task] }

/-- The scan of `steal_batch`: skip pinned entries, take others up to the limit. -/
def stealBatchLoop (arena : TaskArenaView) (stealLimit : Nat) : Nat → Scan → Scan
  | 0, s => s
  | fuel + 1, s =>
    if stealLimit ≤ s.stolen.length then s
    else
      match s.queue[s.scannedLen]? with
      | none => s
      | some task =>
        if pinned arena task then
          stealBatchLoop arena stealLimit fuel
            { s with
              queue := keepEntry s.queue s.keptLen s.scannedLen task
              keptLen := s.keptLen + 1
              scannedLen := s.scannedLen + 1 }
        else
          stealBatchLoop arena stealLimit fuel
            { s with scannedLen := s.scannedLen + 1, stolen := s.stolen ++ [task] }

/-- A scan that has not looked at anything yet. -/
def Scan.start (queue : List TaskId) : Scan :=
  { queue := queue, keptLen := 0, scannedLen := 0, stolen := [] }

def steal (q : LocalQueue) (arena : TaskArenaView) : LocalQueue × Option TaskId :=
  let s := stealLoop arena (min q.queue.length skippedLocalsInlineCap) (.start q.queue)
  ({ q with
      queue := compactScannedPrefix s.queue s.keptLen s.scannedLen
      presence := s.stolen.foldl Finset.erase q.presence }.publish,
    s.stolen.head?)

/-- The part of `steal_batch` under both queue locks. -/
def stealBatchLocked (src dest : LocalQueue) (arena : TaskArenaView) :
    LocalQueue × LocalQueue × Bool :=
  if src.queue.length = 0 then (src, dest, false)
  else
    let s := stealBatchLoop arena (min (max (src.queue.length / 2) 1) 256)
      (min src.queue.length skippedLocalsInlineCap) (.start src.queue)
    ({ src with
        queue := compactScannedPrefix s.queue s.keptLen s.scannedLen
        presence := s.stolen.foldl Finset.erase src.presence },
      { dest with
        queue := dest.queue ++ s.stolen
        presence := s.stolen.foldl (fun presence task => insert task presence) dest.presence },
      decide (0 < s.stolen.length))

/-- `steal_batch` between two different queues. -/
def stealBatch (src dest : LocalQueue) (arena : TaskArenaView) :
    LocalQueue × LocalQueue × Bool :=
  ((stealBatchLocked src dest arena).1.publish,
    (stealBatchLocked src dest arena).2.1.publish,
    (stealBatchLocked src dest arena).2.2)

section Scanning

variable (arena : TaskArenaView)

/-- The scan of `orig` has split the scanned part into kept and stolen entries and
has not touched the rest. -/
structure ScanInv (orig : List TaskId) (s : Scan) : Prop where
  length : s.queue.length = orig.length
  kept_le : s.keptLen ≤ s.scannedLen
  scanned_le : s.scannedLen ≤ orig.length
  kept : s.queue.take s.keptLen = (orig.take s.scannedLen).filter (pinned arena)
  rest : s.queue.drop s.scannedLen = orig.drop s.scannedLen
  stolen : s.stolen = (orig.take s.scannedLen).filter (fun task => !pinned arena task)

theorem scanInv_start (orig : List TaskId) : ScanInv arena orig (.start orig) := by
  constructor <;> simp [Scan.start]

variable {arena}

variable {orig : List TaskId} {s : Scan} {task : TaskId}

/-- The entry under the cursor is still the original one. -/
theorem ScanInv.current (inv : ScanInv arena orig s) (h : s.queue[s.scannedLen]? = some task) :
    s.scannedLen < orig.length ∧
      orig.take (s.scannedLen + 1) = orig.take s.scannedLen ++ [task] := by
  have horig : orig[s.scannedLen]? = some task := by
    rw [← head?_drop, ← inv.rest, head?_drop, h]
  refine ⟨(List.getElem?_eq_some_iff.mp horig).1, ?_⟩
  rw [take_add_one, horig]
  rfl

/-- Where the cursor has not left the kept entries, the entry is in its place already. -/
theorem keepEntry_eq {queue : List TaskId} {keptLen scannedLen : Nat}
    (h : queue[scannedLen]? = some task) :
    keepEntry queue keptLen scannedLen task = queue.set keptLen task := by
  unfold keepEntry
  split
  · next heq =>
    obtain ⟨hlt, rfl⟩ := List.getElem?_eq_some_iff.mp h
    rw [heq, set_getElem_self]
  · rfl

theorem ScanInv.keep (inv : ScanInv arena orig s) (h : s.queue[s.scannedLen]? = some task)
    (hpin : pinned arena task = true) :
    ScanInv arena orig
      { s with
        queue := keepEntry s.queue s.keptLen s.scannedLen task
        keptLen := s.keptLen + 1
        scannedLen := s.scannedLen + 1 } := by
  obtain ⟨hlt, htake⟩ := inv.current h
  have hkept_lt : s.keptLen < s.queue.length := by
    rw [inv.length]
    exact inv.kept_le.trans_lt hlt
  -- the kept part grows by exactly this entry
  have hgrow : (s.queue.set s.keptLen task).take (s.keptLen + 1) =
      s.queue.take s.keptLen ++ [task] := by
    rw [take_add_one, getElem?_set_self hkept_lt, take_set_of_le (le_refl _)]
    rfl
  rw [keepEntry_eq h]
  constructor
  case length => exact length_set.trans inv.length
  case kept_le => exact Nat.succ_le_succ inv.kept_le
  case scanned_le => exact hlt
  case kept =>
    rw [hgrow, htake, filter_append, inv.kept]
    simp [hpin]
  case rest => rw [drop_set_of_lt (Nat.lt_add_one_of_le inv.kept_le), ← drop_drop, inv.rest, drop_drop]
  case stolen =>
    rw [htake, filter_append, inv.stolen]
    simp [hpin]

theorem ScanInv.take (inv : ScanInv arena orig s) (h : s.queue[s.scannedLen]? = some task)
    (hfree : pinned arena task = false) :
    ScanInv arena orig
      { s with scannedLen := s.scannedLen + 1, stolen := s.stolen ++ [task] } := by
  obtain ⟨hlt, htake⟩ := inv.current h
  constructor
  case length => exact inv.length
  case kept_le => exact Nat.le_succ_of_le inv.kept_le
  case scanned_le => exact hlt
  case kept =>
    rw [htake, filter_append, inv.kept]
    simp [hfree]
  case rest =>
    rw [← drop_drop, inv.rest, drop_drop]
  case stolen =>
    rw [htake, filter_append, inv.stolen]
    simp [hfree]

/-- A single steal stops at the first entry it takes. -/
theorem stealLoop_spec (fuel : Nat) (inv : ScanInv arena orig s) (hnone : s.stolen = []) :
    ScanInv arena orig (stealLoop arena fuel s) ∧ (stealLoop arena fuel s).stolen.length ≤ 1 := by
  induction fuel generalizing s with
  | zero => exact ⟨inv, by simp [stealLoop, hnone]⟩
  | succ fuel ih =>
    simp only [stealLoop]
    cases h : s.queue[s.scannedLen]? with
    | none => exact ⟨inv, by simp [hnone]⟩
    | some task =>
      dsimp only
      cases hpin : pinned arena task with
      | true => exact ih (inv.keep h hpin) hnone
      | false => exact ⟨inv.take h hpin, by simp [hnone]⟩

theorem stealBatchLoop_inv (stealLimit fuel : Nat) (inv : ScanInv arena orig s) :
    ScanInv arena orig (stealBatchLoop arena stealLimit fuel s) := by
  induction fuel generalizing s with
  | zero => exact inv
  | succ fuel ih =>
    simp only [stealBatchLoop]
    split_ifs
    · exact inv
    cases h : s.queue[s.scannedLen]? with
    | none => exact inv
    | some task =>
      dsimp only
      cases hpin : pinned arena task with
      | true => exact ih (inv.keep h hpin)
      | false => exact ih (inv.take h hpin)

variable (inv : ScanInv arena orig s)

include inv

theorem ScanInv.compact :
    compactScannedPrefix s.queue s.keptLen s.scannedLen =
      (orig.take s.scannedLen).filter (pinned arena) ++ orig.drop s.scannedLen := by
  rw [← inv.kept, ← inv.rest]
  unfold compactScannedPrefix
  split_ifs with heq
  · rw [heq, take_append_drop]
  · rfl

/-- The kept entries are the original ones without the stolen ones, in their old
order. -/
theorem ScanInv.sublist : (compactScannedPrefix s.queue s.keptLen s.scannedLen).Sublist orig := by
  rw [inv.compact]
  conv_rhs => rw [← take_append_drop s.scannedLen orig]
  exact filter_sublist.append (Sublist.refl _)

theorem ScanInv.perm :
    (s.stolen ++ compactScannedPrefix s.queue s.keptLen s.scannedLen).Perm orig := by
  rw [inv.compact, inv.stolen, ← append_assoc]
  conv_rhs => rw [← take_append_drop s.scannedLen orig]
  refine Perm.append ?_ (Perm.refl _)
  exact perm_append_comm.trans (filter_append_perm _ _)

theorem ScanInv.stolen_free : ∀ task ∈ s.stolen, pinned arena task = false := by
  intro task htask
  rw [inv.stolen, mem_filter] at htask
  simpa using htask.2

end Scanning

section Specs

/-- No task twice, the presence set is the contents, the length is published. -/
structure WellFormed (q : LocalQueue) : Prop where
  nodup : q.queue.Nodup
  presence : q.presence = q.queue.toFinset
  cachedLen : q.cachedLen = q.queue.length

theorem wellFormed_new : WellFormed new := by
  constructor <;> simp [new]

theorem foldl_erase_eq (l : List TaskId) (s : Finset TaskId) :
    l.foldl Finset.erase s = s \ l.toFinset := by
  induction l generalizing s with
  | nil => simp
  | cons a l ih =>
    rw [foldl_cons, ih, toFinset_cons, Finset.sdiff_insert, Finset.erase_sdiff_comm]

theorem foldl_insert_eq (l : List TaskId) (s : Finset TaskId) :
    l.foldl (fun presence task => insert task presence) s = s ∪ l.toFinset := by
  induction l generalizing s with
  | nil => simp
  | cons a l ih =>
    rw [foldl_cons, ih, toFinset_cons, Finset.insert_union, Finset.union_insert]

variable {q : LocalQueue}

/-- Taking `taken` out of a well-formed queue leaves a well-formed queue. -/
theorem WellFormed.remove {taken kept : List TaskId} (h : WellFormed q)
    (hperm : (taken ++ kept).Perm q.queue) :
    WellFormed
      { q with queue := kept, presence := taken.foldl Finset.erase q.presence }.publish := by
  have hnodup : (taken ++ kept).Nodup := hperm.nodup_iff.mpr h.nodup
  have hdisj := disjoint_of_nodup_append hnodup
  constructor
  case nodup => exact hnodup.of_append_right
  case presence =>
    simp only [publish]
    rw [foldl_erase_eq, h.presence]
    ext x
    simp only [Finset.mem_sdiff, mem_toFinset, ← hperm.mem_iff, mem_append]
    constructor
    · rintro ⟨hmem | hmem, hnot⟩
      · exact absurd hmem hnot
      · exact hmem
    · intro hmem
      exact ⟨.inr hmem, fun htaken => hdisj htaken hmem⟩
  case cachedLen => rfl

/-- Appending fresh tasks to a well-formed queue. -/
theorem WellFormed.append {added : List TaskId} (h : WellFormed q) (hnodup : added.Nodup)
    (hfresh : Disjoint q.queue added) :
    WellFormed
      { q with
        queue := q.queue ++ added
        presence := added.foldl (fun presence task => insert task presence) q.presence
      }.publish := by
  constructor
  case nodup => exact nodup_append'.mpr ⟨h.nodup, hnodup, hfresh⟩
  case presence =>
    simp only [publish]
    rw [foldl_insert_eq, h.presence, toFinset_append]
  case cachedLen => rfl

/-- Pushing fresh tasks one by one appends them. -/
theorem foldl_pushEntry (tasks : List TaskId) (hpresence : q.presence = q.queue.toFinset)
    (hnodup : tasks.Nodup) (hfresh : Disjoint q.queue tasks) :
    tasks.foldl pushEntry q =
      { q with
        queue := q.queue ++ tasks
        presence := tasks.foldl (fun presence task => insert task presence) q.presence } := by
  induction tasks generalizing q with
  | nil => simp
  | cons task tasks ih =>
    have hnot : task ∉ q.queue := fun hmem => hfresh hmem mem_cons_self
    have hentry : q.pushEntry task =
        { q with queue := q.queue ++ [task], presence := insert task q.presence } := by
      simp [pushEntry, hpresence, hnot]
    obtain ⟨htask, htasks⟩ := nodup_cons.mp hnodup
    rw [foldl_cons, hentry, ih]
    · simp
    · rw [hpresence]
      simp
    · exact htasks
    · intro x hx hx'
      rw [mem_append, mem_singleton] at hx
      rcases hx with hx | rfl
      · exact hfresh hx (mem_cons_of_mem _ hx')
      · exact htask hx'

theorem pushMany_spec {tasks : List TaskId} (h : WellFormed q) (hnodup : tasks.Nodup)
    (hfresh : Disjoint q.queue tasks) :
    WellFormed (q.pushMany tasks) ∧ (q.pushMany tasks).queue = q.queue ++ tasks := by
  unfold pushMany
  cases tasks with
  | nil => simpa using h
  | cons task tasks =>
    rw [foldl_pushEntry _ h.presence hnodup hfresh]
    exact ⟨h.append hnodup hfresh, rfl⟩

theorem pop_spec (h : WellFormed q) :
    WellFormed q.pop.1 ∧ (q.pop.2.toList ++ q.pop.1.queue).Perm q.queue := by
  unfold pop
  cases hlast : q.queue.getLast? with
  | none => exact ⟨⟨h.nodup, h.presence, rfl⟩, Perm.refl _⟩
  | some task =>
    have hsplit : q.queue.dropLast ++ [task] = q.queue :=
      dropLast_append_getLast? task hlast
    have hperm : ([task] ++ q.queue.dropLast).Perm q.queue := by
      conv_rhs => rw [← hsplit]
      exact perm_append_comm
    exact ⟨h.remove hperm, hperm⟩

/-- What a thief gets from `steal` and what stays. -/
theorem steal_spec (arena : TaskArenaView) (h : WellFormed q) :
    WellFormed (q.steal arena).1 ∧
      ((q.steal arena).2.toList ++ (q.steal arena).1.queue).Perm q.queue ∧
      (q.steal arena).1.queue.Sublist q.queue ∧
      ∀ task, (q.steal arena).2 = some task → pinned arena task = false := by
  obtain ⟨inv, hone⟩ := stealLoop_spec (min q.queue.length skippedLocalsInlineCap)
    (scanInv_start arena q.queue) rfl
  unfold steal
  generalize stealLoop arena (min q.queue.length skippedLocalsInlineCap) (.start q.queue) = s
    at inv hone
  have hlist : s.stolen.head?.toList = s.stolen := by
    cases hs : s.stolen with
    | nil => rfl
    | cons task rest =>
      cases rest with
      | nil => rfl
      | cons b rest =>
        rw [hs] at hone
        simp at hone
  refine ⟨h.remove inv.perm, ?_, inv.sublist, ?_⟩
  · rw [hlist]
    exact inv.perm
  · intro task htask
    exact inv.stolen_free task (mem_of_mem_head? htask)

/-- What `steal_batch` moves and what stays. -/
theorem stealBatch_spec {src dest : LocalQueue} (arena : TaskArenaView) (hsrc : WellFormed src)
    (hdest : WellFormed dest) (hdisj : Disjoint dest.queue src.queue) :
    ∃ moved : List TaskId,
      (∀ task ∈ moved, pinned arena task = false) ∧
      (moved ++ (stealBatch src dest arena).1.queue).Perm src.queue ∧
      (stealBatch src dest arena).1.queue.Sublist src.queue ∧
      (stealBatch src dest arena).2.1.queue = dest.queue ++ moved ∧
      WellFormed (stealBatch src dest arena).1 ∧
      WellFormed (stealBatch src dest arena).2.1 := by
  unfold stealBatch stealBatchLocked
  split_ifs
  · refine ⟨[], by simp, by simp [publish], Sublist.refl _, by simp [publish], ?_, ?_⟩
    · exact ⟨hsrc.nodup, hsrc.presence, rfl⟩
    · exact ⟨hdest.nodup, hdest.presence, rfl⟩
  have inv := stealBatchLoop_inv (min (max (src.queue.length / 2) 1) 256)
    (min src.queue.length skippedLocalsInlineCap) (scanInv_start arena src.queue)
  generalize stealBatchLoop arena (min (max (src.queue.length / 2) 1) 256)
    (min src.queue.length skippedLocalsInlineCap) (.start src.queue) = s at inv
  have hnodup : (s.stolen ++ compactScannedPrefix s.queue s.keptLen s.scannedLen).Nodup :=
    inv.perm.nodup_iff.mpr hsrc.nodup
  have hfresh : Disjoint dest.queue s.stolen := by
    intro x hx hstolen
    exact hdisj hx (inv.perm.mem_iff.mp (mem_append_left _ hstolen))
  exact ⟨s.stolen, inv.stolen_free, inv.perm, inv.sublist, rfl,
    hsrc.remove inv.perm, hdest.append hnodup.of_append_left hfresh⟩

end Specs

end LocalQueue

section System

variable {ι : Type} [DecidableEq ι]

/-- The lock-guarded steps on a family of queues. -/
inductive QueueOp (ι : Type) where
  | push (i : ι) (task : TaskId)
  | pushMany (i : ι) (tasks : List TaskId)
  | pop (i : ι)
  | steal (i : ι) (arena : TaskArenaView)
  | stealBatch (src dest : ι) (arena : TaskArenaView)

inductive QueueReply where
  | unit
  | task (task : Option TaskId)
  | flag (stole : Bool)

/-- A step with its reply. -/
structure QueueEvent (ι : Type) where
  op : QueueOp ι
  reply : QueueReply

/-- One lock-guarded step.  A task is pushed only while it is in no queue. -/
inductive QueueStep : (ι → LocalQueue) → QueueEvent ι → (ι → LocalQueue) → Prop
  | push {q : ι → LocalQueue} (i : ι) (task : TaskId)
      (hfree : ∀ j, task ∉ (q j).queue) :
      QueueStep q ⟨.push i task, .unit⟩ (Function.update q i ((q i).push task))
  | pushMany {q : ι → LocalQueue} (i : ι) (tasks : List TaskId)
      (hnodup : tasks.Nodup)
      (hfree : ∀ j, ∀ task ∈ tasks, task ∉ (q j).queue) :
      QueueStep q ⟨.pushMany i tasks, .unit⟩ (Function.update q i ((q i).pushMany tasks))
  -- the unlocked length check of `pop` may read an outdated zero
  | popFast {q : ι → LocalQueue} (i : ι) :
      QueueStep q ⟨.pop i, .task none⟩ q
  | pop {q : ι → LocalQueue} (i : ι) :
      QueueStep q ⟨.pop i, .task (q i).pop.2⟩ (Function.update q i (q i).pop.1)
  | steal {q : ι → LocalQueue} (i : ι) (arena : TaskArenaView) :
      QueueStep q ⟨.steal i arena, .task ((q i).steal arena).2⟩
        (Function.update q i ((q i).steal arena).1)
  | stealBatchSelf {q : ι → LocalQueue} (i : ι) (arena : TaskArenaView) :
      QueueStep q ⟨.stealBatch i i arena, .flag false⟩ q
  | stealBatch {q : ι → LocalQueue} (i j : ι) (arena : TaskArenaView) (hne : i ≠ j) :
      QueueStep q
        ⟨.stealBatch i j arena, .flag (LocalQueue.stealBatch (q i) (q j) arena).2.2⟩
        (Function.update
          (Function.update q i (LocalQueue.stealBatch (q i) (q j) arena).1)
          j (LocalQueue.stealBatch (q i) (q j) arena).2.1)

def queueSystem (ι : Type) [DecidableEq ι] :
    TransitionSystem (ι → LocalQueue) (QueueEvent ι) where
  init q := ∀ i, q i = LocalQueue.new
  step := QueueStep

/-- The tasks an event has pushed. -/
def QueueEvent.pushed (e : QueueEvent ι) : List TaskId :=
  match e.op with
  | .push _ task => [task]
  | .pushMany _ tasks => tasks
  | _ => []

/-- The task an event has handed to its caller. -/
def QueueEvent.returned (e : QueueEvent ι) : List TaskId :=
  match e.reply with
  | .task task => task.toList
  | _ => []

variable {q : ι → LocalQueue} {i : ι} {x : LocalQueue}

theorem wellFormed_update (h : ∀ j, (q j).WellFormed) (hx : x.WellFormed) :
    ∀ j, (update q i x j).WellFormed :=
  (forall_update_iff q fun _ => LocalQueue.WellFormed).mpr ⟨hx, fun j _ => h j⟩

variable [Fintype ι]

/-- All tasks in the queues, with multiplicity. -/
def contents (q : ι → LocalQueue) : Multiset TaskId :=
  ∑ i, ((q i).queue : Multiset TaskId)

/-- Everything pushed was returned or is still queued, and nothing is queued twice. -/
structure QueueInv (history : List (QueueEvent ι)) (q : ι → LocalQueue) : Prop where
  wellFormed : ∀ i, (q i).WellFormed
  disjoint : ∀ i j, i ≠ j → List.Disjoint (q i).queue (q j).queue
  conserved : (history.flatMap QueueEvent.pushed : Multiset TaskId) =
    (history.flatMap QueueEvent.returned : Multiset TaskId) + contents q

omit [DecidableEq ι] in
/-- Nothing is queued twice. -/
theorem nodup_contents_iff :
    (contents q).Nodup ↔ (∀ i, (q i).queue.Nodup) ∧
      ∀ i j, i ≠ j → Disjoint (q i).queue (q j).queue := by
  have hbind : contents q = Finset.univ.val.bind fun i => ((q i).queue : Multiset TaskId) := rfl
  rw [hbind, Multiset.nodup_bind]
  refine and_congr ⟨fun h i => h i (Finset.mem_univ i), fun h i _ => h i⟩
    ⟨fun h i j hne => ?_, fun h => ?_⟩
  · have hdisj := Multiset.Pairwise.forall h (Finset.mem_univ i) (Finset.mem_univ j) hne
    exact (Multiset.coe_disjoint _ _).mp hdisj
  · refine Multiset.Nodup.pairwise (fun i _ j _ hne => ?_) Finset.univ.nodup
    exact (Multiset.coe_disjoint _ _).mpr (h i j hne)

theorem contents_update (q : ι → LocalQueue) (i : ι) (x : LocalQueue) :
    contents (update q i x) + ((q i).queue : Multiset TaskId) =
      contents q + (x.queue : Multiset TaskId) := by
  have hsplit : ∀ f : ι → LocalQueue, contents f = ((f i).queue : Multiset TaskId) +
        ∑ j ∈ Finset.univ.erase i, ((f j).queue : Multiset TaskId) :=
    fun f => (Finset.add_sum_erase _ _ (Finset.mem_univ i)).symm
  have hrest : ∑ j ∈ Finset.univ.erase i, ((update q i x j).queue : Multiset TaskId) =
      ∑ j ∈ Finset.univ.erase i, ((q j).queue : Multiset TaskId) := by
    refine Finset.sum_congr rfl ?_
    intro j hj
    rw [update_of_ne (Finset.ne_of_mem_erase hj)]
  rw [hsplit (update q i x), hsplit q, hrest, update_self]
  rw [add_right_comm, add_comm (x.queue : Multiset TaskId), add_right_comm]

variable {history : List (QueueEvent ι)} {e : QueueEvent ι}

section

variable (inv : QueueInv history q)

include inv

omit [DecidableEq ι] in
theorem QueueInv.nodup : (contents q).Nodup :=
  nodup_contents_iff.mpr ⟨fun i => (inv.wellFormed i).nodup, inv.disjoint⟩

/-- Pushing fresh tasks and handing out tasks of a queue keeps the invariant. -/
theorem QueueInv.exchanged {tasks taken : List TaskId}
    (hx : x.WellFormed) (hpushed : e.pushed = tasks) (hreturned : e.returned = taken)
    (hperm : (taken ++ x.queue).Perm ((q i).queue ++ tasks)) (hnodup : tasks.Nodup)
    (hfree : ∀ j, ∀ task ∈ tasks, task ∉ (q j).queue) :
    QueueInv (history ++ [e]) (update q i x) := by
  have htotal : contents (update q i x) + taken = contents q + tasks := by
    have hmoved : (taken : Multiset TaskId) + x.queue = (q i).queue + tasks :=
      Multiset.coe_eq_coe.mpr hperm
    refine add_right_cancel (b := ((q i).queue : Multiset TaskId)) ?_
    rw [add_right_comm, contents_update, add_assoc, add_comm (x.queue : Multiset TaskId), hmoved]
    ac_rfl
  have hall : (contents (update q i x) + taken).Nodup := by
    rw [htotal, Multiset.nodup_add]
    refine ⟨inv.nodup, hnodup, Multiset.disjoint_left.mpr fun hmem htask => ?_⟩
    obtain ⟨j, -, hj⟩ := Multiset.mem_sum.mp hmem
    exact hfree j _ htask hj
  constructor
  case wellFormed => exact wellFormed_update inv.wellFormed hx
  case disjoint => exact (nodup_contents_iff.mp (Multiset.nodup_add.mp hall).1).2
  case conserved =>
    simp only [flatMap_append, flatMap_cons, flatMap_nil, append_nil, hpushed, hreturned]
    rw [← Multiset.coe_add, ← Multiset.coe_add, inv.conserved, add_assoc, ← htotal]
    ac_rfl

/-- Moving tasks from one queue to another keeps the invariant. -/
theorem QueueInv.moved {j : ι} {y : LocalQueue} {moved : List TaskId}
    (hne : i ≠ j) (hx : x.WellFormed) (hy : y.WellFormed)
    (hperm : (moved ++ x.queue).Perm (q i).queue) (hdest : y.queue = (q j).queue ++ moved)
    (hpushed : e.pushed = []) (hreturned : e.returned = []) :
    QueueInv (history ++ [e]) (update (update q i x) j y) := by
  have hsame : contents (update (update q i x) j y) = contents q := by
    have hupd₁ := contents_update q i x
    have hupd₂ := contents_update (update q i x) j y
    rw [update_of_ne hne.symm, hdest, ← Multiset.coe_add, ← add_assoc, add_right_comm] at hupd₂
    rw [← Multiset.coe_eq_coe.mpr hperm, ← Multiset.coe_add, ← add_assoc] at hupd₁
    exact (add_right_cancel hupd₂).trans (add_right_cancel hupd₁)
  constructor
  case wellFormed => exact wellFormed_update (wellFormed_update inv.wellFormed hx) hy
  case disjoint => exact (nodup_contents_iff.mp (hsame ▸ inv.nodup)).2
  case conserved =>
    simp only [flatMap_append, flatMap_cons, flatMap_nil, append_nil, hpushed, hreturned]
    rw [inv.conserved, hsame]

/-- One step keeps the invariant. -/
theorem queueInv_step {q' : ι → LocalQueue} (h : QueueStep q e q') :
    QueueInv (history ++ [e]) q' := by
  -- steps that change nothing
  have hsame : ∀ e : QueueEvent ι, e.pushed = [] → e.returned = [] →
      QueueInv (history ++ [e]) q := by
    intro e hp hr
    refine ⟨inv.wellFormed, inv.disjoint, ?_⟩
    simp only [flatMap_append, flatMap_cons, flatMap_nil, append_nil, hp, hr]
    exact inv.conserved
  cases h with
  | push i task hfree =>
    obtain ⟨hwf, hqueue⟩ := LocalQueue.pushMany_spec (inv.wellFormed i) (nodup_singleton task)
      (disjoint_singleton.mpr (hfree i))
    refine inv.exchanged hwf rfl rfl (.of_eq hqueue) (nodup_singleton task) fun j t ht => ?_
    rw [mem_singleton.mp ht]
    exact hfree j
  | pushMany i tasks hnodup hfree =>
    have hdisj : Disjoint (q i).queue tasks := fun t ht ht' => hfree i t ht' ht
    obtain ⟨hwf, hqueue⟩ := LocalQueue.pushMany_spec (inv.wellFormed i) hnodup hdisj
    exact inv.exchanged hwf rfl rfl (.of_eq hqueue) hnodup hfree
  | popFast i | stealBatchSelf i arena => exact hsame _ rfl rfl
  | pop i =>
    obtain ⟨hwf, hperm⟩ := LocalQueue.pop_spec (inv.wellFormed i)
    exact inv.exchanged hwf rfl rfl (hperm.trans (.of_eq (append_nil _).symm)) nodup_nil nofun
  | steal i arena =>
    obtain ⟨hwf, hperm, _, _⟩ := LocalQueue.steal_spec arena (inv.wellFormed i)
    exact inv.exchanged hwf rfl rfl (hperm.trans (.of_eq (append_nil _).symm)) nodup_nil nofun
  | stealBatch i j arena hne =>
    obtain ⟨moved, _, hperm, _, hdest, hx, hy⟩ :=
      LocalQueue.stealBatch_spec arena (inv.wellFormed i) (inv.wellFormed j)
        (inv.disjoint j i hne.symm)
    exact inv.moved hne hx hy hperm hdest rfl rfl

end

theorem queueInv_run {q₀ : ι → LocalQueue} (hinit : (queueSystem ι).init q₀)
    (hrun : (queueSystem ι).Run q₀ history q) :
    QueueInv history q := by
  refine hrun.history_induction ?_ fun _ _ _ _ _ inv hstep => queueInv_step inv hstep
  have hnew : ∀ i, q₀ i = LocalQueue.new := hinit
  constructor
  case wellFormed =>
    intro i
    rw [hnew i]
    exact LocalQueue.wellFormed_new
  case disjoint =>
    intro i j _
    rw [hnew i]
    exact disjoint_nil_left _
  case conserved => simp [contents, hnew, LocalQueue.new]

/-- What a steal does to the victim and the thief. -/
def StealKeeps (q : ι → LocalQueue) (e : QueueEvent ι) (q' : ι → LocalQueue) : Prop :=
  match e.op with
  | .steal i arena =>
    (∀ task, e.reply = .task (some task) → pinned arena task = false) ∧
      (q' i).queue.Sublist (q i).queue
  | .stealBatch i j arena =>
    ∃ moved : List TaskId, (∀ task ∈ moved, pinned arena task = false) ∧
      (q' i).queue.Sublist (q i).queue ∧ (q' j).queue = (q j).queue ++ moved
  | _ => True

/-- What holds of the queues reached by a run, and of the next step. -/
structure WorkStealingOk (history : List (QueueEvent ι)) (q : ι → LocalQueue) : Prop where
  conserved : (history.flatMap QueueEvent.pushed : Multiset TaskId) =
    (history.flatMap QueueEvent.returned : Multiset TaskId) + contents q
  oneQueue : ∀ i j, i ≠ j → List.Disjoint (q i).queue (q j).queue
  noDuplicates : ∀ i, (q i).queue.Nodup
  presence : ∀ i, (q i).presence = (q i).queue.toFinset
  steals : ∀ e q', QueueStep q e q' → StealKeeps q e q'

/-- **Work stealing loses and duplicates nothing.**  Along every interleaving of
queue steps the pushed tasks are the returned ones and the queued ones, no task
is in two queues, presence sets are exact, and steals pass over pinned tasks and
keep the order of what they leave. -/
theorem work_stealing_conserves {q₀ q : ι → LocalQueue} {history : List (QueueEvent ι)}
    (hinit : (queueSystem ι).init q₀) (hrun : (queueSystem ι).Run q₀ history q) :
    WorkStealingOk history q := by
  have inv := queueInv_run hinit hrun
  refine ⟨inv.conserved, inv.disjoint, fun i => (inv.wellFormed i).nodup,
    fun i => (inv.wellFormed i).presence, ?_⟩
  intro e q' hstep
  cases hstep with
  | steal i arena =>
    obtain ⟨_, _, hsub, hfree⟩ := LocalQueue.steal_spec arena (inv.wellFormed i)
    refine ⟨?_, ?_⟩
    · intro task htask
      exact hfree task (QueueReply.task.inj htask)
    · rw [update_self]
      exact hsub
  | stealBatchSelf i arena =>
    exact ⟨[], by simp, List.Sublist.refl _, by simp⟩
  | stealBatch i j arena hne =>
    obtain ⟨moved, hfree, _, hsub, hdest, _, _⟩ :=
      LocalQueue.stealBatch_spec arena (inv.wellFormed i) (inv.wellFormed j)
        (inv.disjoint j i hne.symm)
    refine ⟨moved, hfree, ?_, ?_⟩
    · rw [update_of_ne hne, update_self]
      exact hsub
    · rw [update_self]
      exact hdest
  | _ => trivial

/-- Two queues after one push and one steal. -/
theorem work_stealing_conserves_one_steal :
    let q₀ : Fin 2 → LocalQueue := fun _ => .new
    let q₁ := Function.update q₀ 0 ((q₀ 0).push ⟨⟨3, 0⟩⟩)
    let q₂ := Function.update q₁ 0 ((q₁ 0).steal fun _ => none).1
    WorkStealingOk
      [⟨.push 0 ⟨⟨3, 0⟩⟩, .unit⟩, ⟨.steal 0 fun _ => none, .task (some ⟨⟨3, 0⟩⟩)⟩] q₂ := by
  intro q₀ q₁ q₂
  have hinit : (queueSystem (Fin 2)).init q₀ := fun _ => rfl
  have hfree : ∀ j, (⟨⟨3, 0⟩⟩ : TaskId) ∉ (q₀ j).queue := fun _ h => by cases h
  have hpush : QueueStep q₀ ⟨.push 0 ⟨⟨3, 0⟩⟩, .unit⟩ q₁ := .push 0 _ hfree
  have hsteal : QueueStep q₁ ⟨.steal 0 fun _ => none, .task (some ⟨⟨3, 0⟩⟩)⟩ q₂ :=
    QueueStep.steal 0 fun _ => none
  exact work_stealing_conserves hinit (.snoc (.single hpush) hsteal)

end System

end Asupersync
