import Asupersync.Types.Cancel

/-!
# Outcomes

The four-valued `Outcome` of a computation and the severity join that regions
use to combine the outcomes of their tasks.
-/

namespace Asupersync

universe u v

/-- Payload of a caught panic. -/
structure PanicPayload where
  message : String
deriving DecidableEq, Repr

/-- The result of a computation, ordered `ok < err < cancelled < panicked`. -/
inductive Outcome (T : Type u) (E : Type v) where
  | ok (value : T)
  | err (error : E)
  | cancelled (reason : CancelReason)
  | panicked (payload : PanicPayload)
deriving Repr

namespace Outcome

variable {T : Type u} {E : Type v}

/-- Numeric severity of an outcome. -/
def severity : Outcome T E → Nat
  | .ok _ => 0
  | .err _ => 1
  | .cancelled _ => 2
  | .panicked _ => 3

/-- True for cancelled outcomes. -/
def isCancelled : Outcome T E → Bool
  | .cancelled _ => true
  | _ => false

/-- Severity join; two cancellations keep the left reason unless the right one is
strictly more severe. -/
def join (left right : Outcome T E) : Outcome T E :=
  match left, right with
  | .cancelled l, .cancelled r =>
    if l.severity < r.severity then .cancelled (l.strengthen r) else .cancelled l
  | left, right => if right.severity ≤ left.severity then left else right

end Outcome

/-- The application error a task can return; only its text is kept. -/
structure Error where
  message : Option String
deriving DecidableEq, Repr

/-- Outcome of a task. -/
abbrev TaskOutcome := Outcome Unit Error

end Asupersync
