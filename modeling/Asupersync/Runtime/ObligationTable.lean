import Asupersync.Util.Arena

/-!
# The obligation table

Obligation records and the table that holds them: the arena, the index of
obligations by holder and the set of finalized regions that fences late commits
and aborts.

The records keep neither the source location nor the backtrace of an acquisition,
and the table's cached totals, which only snapshots read, are left out.  The
buckets of the holder index are one association list.
-/

namespace Asupersync

inductive ObligationKind where
  | sendPermit
  | ack
  | lease
  | ioOp
  | semaphorePermit
deriving DecidableEq, Repr

namespace ObligationKind

def asStr : ObligationKind → String
  | .sendPermit => "send_permit"
  | .ack => "ack"
  | .lease => "lease"
  | .ioOp => "io_op"
  | .semaphorePermit => "semaphore_permit"

end ObligationKind

/-- Kinds are ordered as they are declared. -/
instance : LinearOrder ObligationKind :=
  LinearOrder.lift' ObligationKind.ctorIdx (by
    intro a b hab
    cases a <;> cases b <;> first | rfl | cases hab)

inductive ObligationAbortReason where
  | cancel
  | error
  | explicit
deriving DecidableEq, Repr

inductive ObligationState where
  | reserved
  | committed
  | aborted
  | leaked
deriving DecidableEq, Repr

inductive ObligationResolution where
  | commit
  | abort (reason : ObligationAbortReason)
  | leak
deriving DecidableEq, Repr

namespace ObligationResolution

def state : ObligationResolution → ObligationState
  | .commit => .committed
  | .abort _ => .aborted
  | .leak => .leaked

def abortReason : ObligationResolution → Option ObligationAbortReason
  | .abort reason => some reason
  | .commit | .leak => none

end ObligationResolution

structure ObligationRecord where
  id : ObligationId
  kind : ObligationKind
  holder : TaskId
  region : RegionId
  state : ObligationState
  description : Option String
  reservedAt : Time
  resolvedAt : Option Time
  abortReason : Option ObligationAbortReason
deriving DecidableEq, Repr

namespace ObligationRecord

def new (id : ObligationId) (kind : ObligationKind) (holder : TaskId) (region : RegionId)
    (reservedAt : Time) (description : Option String) : ObligationRecord :=
  { id := id
    kind := kind
    holder := holder
    region := region
    state := .reserved
    description := description
    reservedAt := reservedAt
    resolvedAt := none
    abortReason := none }

def isPending (o : ObligationRecord) : Bool := decide (o.state = .reserved)

/-- The resolution of a pending record; the callers have checked that it is. -/
def resolveWith (o : ObligationRecord) (now : Time) (resolution : ObligationResolution) :
    ObligationRecord :=
  { o with
    state := resolution.state
    resolvedAt := some now
    abortReason := resolution.abortReason }

@[simp]
theorem isPending_resolveWith (o : ObligationRecord) (now : Time)
    (resolution : ObligationResolution) : (o.resolveWith now resolution).isPending = false := by
  cases resolution <;> rfl

end ObligationRecord

/-- The errors of obligation operations. -/
inductive ObligationError where
  /-- `RegionClosed`, "region not found" -/
  | regionNotFound
  /-- `RegionClosed`, "region closed" -/
  | regionClosed
  /-- `TaskNotOwned`, "holder task .. not found" -/
  | holderNotFound (holder : TaskId)
  /-- `TaskNotOwned`, "holder task .. is owned by region .., not .." -/
  | holderNotOwned (holder : TaskId) (owner region : RegionId)
  /-- `AdmissionDenied`, "region .. obligation limit .. reached (live ..)" -/
  | limitReached (region : RegionId) (limit live : Nat)
  /-- `ObligationAlreadyResolved`, "obligation not found" -/
  | notFound
  /-- `ObligationAlreadyResolved` -/
  | alreadyResolved
  /-- `RegionFinalized`, "cannot commit obligation: region has been finalized" -/
  | commitAfterFinalize
  /-- `RegionFinalized`, "cannot abort obligation: region has been finalized" -/
  | abortAfterFinalize
deriving DecidableEq, Repr

structure ObligationTable where
  obligations : Arena ObligationRecord
  byHolder : List (TaskId × List ObligationId)
  finalizedRegions : List RegionId

/-- What a resolved obligation reports to the runtime. -/
structure ObligationInfo where
  holder : TaskId
  region : RegionId
  duration : Nat
deriving DecidableEq, Repr

namespace ObligationTable

def new : ObligationTable := { obligations := .new, byHolder := [], finalizedRegions := [] }

def get (t : ObligationTable) (o : ObligationId) : Option ObligationRecord :=
  t.obligations.get o.arenaIndex

def pushHolderId (holder : TaskId) (o : ObligationId) :
    List (TaskId × List ObligationId) → List (TaskId × List ObligationId)
  | [] => [(holder, [o])]
  | (task, ids) :: rest =>
    if task = holder then (task, ids ++ [o]) :: rest else (task, ids) :: pushHolderId holder o rest

def idsForHolder (t : ObligationTable) (holder : TaskId) : List ObligationId :=
  match t.byHolder.find? (·.1 = holder) with
  | some (_, ids) => ids
  | none => []

def create (t : ObligationTable) (kind : ObligationKind) (holder : TaskId) (region : RegionId)
    (now : Time) (description : Option String) : Option (ObligationId × ObligationTable) :=
  match t.obligations.insertWith
      (fun idx => ObligationRecord.new ⟨idx⟩ kind holder region now description) with
  | some (idx, obligations) =>
    some (⟨idx⟩,
      { t with obligations := obligations, byHolder := pushHolderId holder ⟨idx⟩ t.byHolder })
  | none => none

/-- The common end of `commit`, `abort` and `mark_leaked`. -/
def resolveRecord (t : ObligationTable) (o : ObligationId) (record : ObligationRecord)
    (now : Time) (resolution : ObligationResolution) :
    Except ObligationError (ObligationInfo × ObligationTable) :=
  if record.isPending then
    .ok (⟨record.holder, record.region, now - record.reservedAt⟩,
      { t with
        obligations := t.obligations.modify o.arenaIndex (·.resolveWith now resolution) })
  else .error .alreadyResolved

/-- A resolution behind the fence of finalized regions. -/
def resolveFenced (t : ObligationTable) (o : ObligationId) (now : Time)
    (resolution : ObligationResolution) (fence : ObligationError) :
    Except ObligationError (ObligationInfo × ObligationTable) :=
  match t.get o with
  | none => .error .notFound
  | some record =>
    if record.region ∈ t.finalizedRegions then .error fence
    else t.resolveRecord o record now resolution

def commit (t : ObligationTable) (o : ObligationId) (now : Time) :
    Except ObligationError (ObligationInfo × ObligationTable) :=
  t.resolveFenced o now .commit .commitAfterFinalize

def abort (t : ObligationTable) (o : ObligationId) (now : Time)
    (reason : ObligationAbortReason) :
    Except ObligationError (ObligationInfo × ObligationTable) :=
  t.resolveFenced o now (.abort reason) .abortAfterFinalize

/-- Marking a leak is not fenced. -/
def markLeaked (t : ObligationTable) (o : ObligationId) (now : Time) :
    Except ObligationError (ObligationInfo × ObligationTable) :=
  match t.get o with
  | none => .error .notFound
  | some record => t.resolveRecord o record now .leak

def isPendingId (t : ObligationTable) (o : ObligationId) : Bool :=
  match t.get o with
  | some record => record.isPending
  | none => false

/-- The derived order on identifiers: slot first, then generation. -/
def idLe (a b : ObligationId) : Bool :=
  decide (a.arenaIndex.index.toNat < b.arenaIndex.index.toNat) ||
    (decide (a.arenaIndex.index = b.arenaIndex.index) &&
      decide (a.arenaIndex.generation.toNat ≤ b.arenaIndex.generation.toNat))

def sortedPendingIdsForHolder (t : ObligationTable) (holder : TaskId) : List ObligationId :=
  ((t.idsForHolder holder).filter t.isPendingId).mergeSort idLe

/-- The pending obligations of a region, in slot order. -/
def pendingForRegion (t : ObligationTable) (region : RegionId) : List ObligationId :=
  (t.obligations.iter.filter fun (_, record) =>
    record.isPending && decide (record.region = region)).map fun (_, record) => record.id

def markRegionFinalized (t : ObligationTable) (region : RegionId) : ObligationTable :=
  { t with finalizedRegions := region :: t.finalizedRegions }

/-- How many reserved obligations name a region. -/
def reserved (t : ObligationTable) (region : RegionId) : Nat :=
  t.obligations.count fun record => record.isPending && decide (record.region = region)

theorem mem_pushHolderId_find
    (holder task : TaskId) (o o' : ObligationId) (index : List (TaskId × List ObligationId)) :
    o' ∈ (match (pushHolderId holder o index).find? (·.1 = task) with
        | some (_, ids) => ids
        | none => []) ↔
      o' ∈ (match index.find? (·.1 = task) with
        | some (_, ids) => ids
        | none => []) ∨ task = holder ∧ o' = o := by
  induction index with
  | nil =>
    by_cases h : holder = task
    · subst h
      simp [pushHolderId]
    · simp [pushHolderId, h, Ne.symm h]
  | cons entry rest ih =>
    obtain ⟨t, ids⟩ := entry
    unfold pushHolderId
    by_cases hhead : t = holder
    · subst hhead
      by_cases htask : t = task
      · subst htask
        simp
      · simp [htask, Ne.symm htask]
    · rw [if_neg hhead]
      by_cases htask : t = task
      · subst htask
        simp [hhead]
      · simpa [List.find?_cons, htask] using ih

/-- What `create` does. -/
structure Created (t : ObligationTable) (holder : TaskId) (region : RegionId)
    (o : ObligationId) (t' : ObligationTable) : Prop where
  wellFormed : t'.obligations.WellFormed
  absent : t.get o = none
  get : ∃ record, record.holder = holder ∧ record.region = region ∧ record.isPending = true ∧
    ∀ j, t'.get j = if j = o then some record else t.get j
  reserved : ∀ r, t'.reserved r = t.reserved r + if region = r then 1 else 0
  index : ∀ task j, j ∈ t'.idsForHolder task ↔ j ∈ t.idsForHolder task ∨ task = holder ∧ j = o
  finalized : t'.finalizedRegions = t.finalizedRegions

variable {t t' : ObligationTable} {now : Time} {o : ObligationId}

theorem create_spec {kind : ObligationKind} {holder : TaskId} {region : RegionId}
    {description : Option String} (hw : t.obligations.WellFormed)
    (h : t.create kind holder region now description = some (o, t')) :
    Created t holder region o t' := by
  unfold create at h
  split at h
  · rename_i idx obligations hinsert
    cases h
    have hspec := Arena.insertWith_spec hw hinsert
    constructor
    case wellFormed => exact hspec.wellFormed
    case absent => exact hspec.absent
    case get =>
      refine ⟨.new ⟨idx⟩ kind holder region now description, rfl, rfl, rfl,
        fun j => (hspec.get j.arenaIndex).trans ?_⟩
      by_cases hj : j = ⟨idx⟩
      · rw [if_pos hj, if_pos (by rw [hj])]
      · rw [if_neg hj, if_neg fun heq => hj (by cases j; cases heq; rfl)]
        rfl
    case reserved =>
      intro r
      have hcount := Arena.count_insertWith
        (fun record : ObligationRecord => record.isPending && decide (record.region = r)) hinsert
      exact hcount.trans (congrArg (_ + ·) (if_congr (decide_eq_true_iff (p := region = r)) rfl rfl))
    case index => exact fun task j => mem_pushHolderId_find holder task ⟨idx⟩ j t.byHolder
    case finalized => rfl
  · cases h

/-- What a successful resolution does. -/
structure Resolved (t : ObligationTable) (o : ObligationId) (info : ObligationInfo)
    (t' : ObligationTable) : Prop where
  wellFormed : t.obligations.WellFormed → t'.obligations.WellFormed
  pending : ∃ record, t.get o = some record ∧ record.isPending = true ∧
    record.holder = info.holder ∧ record.region = info.region
  get : ∃ now resolution, ∀ j,
    t'.get j = if j = o then (t.get o).map (·.resolveWith now resolution) else t.get j
  reserved : ∀ r, t'.reserved r + (if info.region = r then 1 else 0) = t.reserved r
  index : t'.byHolder = t.byHolder
  finalized : t'.finalizedRegions = t.finalizedRegions

variable {info : ObligationInfo} {resolution : ObligationResolution}

theorem resolveRecord_spec {record : ObligationRecord}
    (hget : t.get o = some record) (h : t.resolveRecord o record now resolution = .ok (info, t')) :
    Resolved t o info t' := by
  unfold resolveRecord at h
  split at h
  · rename_i hpending
    cases h
    constructor
    case wellFormed => exact fun hw => Arena.modify_wellFormed hw
    case pending => exact ⟨record, hget, hpending, rfl, rfl⟩
    case get =>
      refine ⟨now, resolution, fun j => (Arena.get_modify _ _ _ _).trans ?_⟩
      exact if_congr ⟨congrArg ObligationId.mk, congrArg ObligationId.arenaIndex⟩ rfl rfl
    case reserved =>
      intro r
      have hcount := Arena.count_modify (f := (·.resolveWith now resolution))
        (fun record : ObligationRecord => record.isPending && decide (record.region = r)) hget
      simpa [hpending, reserved] using hcount
    case index => rfl
    case finalized => rfl
  · cases h

theorem resolveFenced_spec {fence : ObligationError}
    (h : t.resolveFenced o now resolution fence = .ok (info, t')) :
    Resolved t o info t' := by
  unfold resolveFenced at h
  split at h
  · cases h
  · split at h
    · cases h
    · exact resolveRecord_spec ‹_› h

theorem markLeaked_spec (h : t.markLeaked o now = .ok (info, t')) : Resolved t o info t' := by
  unfold markLeaked at h
  split at h
  · cases h
  · exact resolveRecord_spec ‹_› h

end ObligationTable

end Asupersync
