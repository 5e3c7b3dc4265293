import Asupersync.Lib.OrderedMap
import Asupersync.Runtime.ObligationTable

/-!
# The static obligation leak checker

The checker walks a structured obligation program, keeps an abstract state for
every obligation variable and reports the paths on which an obligation may be
leaked.  A branch is analysed arm by arm from the state at its entry, and the exit
states of the arms are joined.

The maps of the source are ordered by key, and so are the maps of this file; the
diagnostics at scope exit come out in that order.
-/

namespace Asupersync

open Std

abbrev ObligationVar := Nat

/-- Abstract state of one obligation variable. -/
inductive VarState where
  | empty
  | held (kind : ObligationKind)
  | mayHold (kind : ObligationKind)
  | mayHoldAmbiguous
  | resolved
deriving DecidableEq, Repr

namespace VarState

/-- The state after two control-flow paths have merged. -/
def join : VarState → VarState → VarState
  | .empty, .empty => .empty
  | .resolved, .resolved => .resolved
  | .empty, .resolved => .resolved
  | .resolved, .empty => .resolved
  | .held k₁, .held k₂ => if k₁ = k₂ then .held k₁ else .mayHoldAmbiguous
  | .mayHold k₁, .mayHold k₂ => if k₁ = k₂ then .mayHold k₁ else .mayHoldAmbiguous
  | .held k₁, .mayHold k₂ => if k₁ = k₂ then .mayHold k₁ else .mayHoldAmbiguous
  | .mayHold k₂, .held k₁ => if k₁ = k₂ then .mayHold k₁ else .mayHoldAmbiguous
  | .held k, .resolved => .mayHold k
  | .held k, .empty => .mayHold k
  | .mayHold k, .resolved => .mayHold k
  | .mayHold k, .empty => .mayHold k
  | .resolved, .held k => .mayHold k
  | .resolved, .mayHold k => .mayHold k
  | .empty, .held k => .mayHold k
  | .empty, .mayHold k => .mayHold k
  | .mayHoldAmbiguous, _ => .mayHoldAmbiguous
  | _, .mayHoldAmbiguous => .mayHoldAmbiguous

def isLeak : VarState → Bool
  | .held _ | .mayHold _ | .mayHoldAmbiguous => true
  | .empty | .resolved => false

def isHeld : VarState → Bool
  | .held _ => true
  | .empty | .mayHold _ | .mayHoldAmbiguous | .resolved => false

def kind : VarState → Option ObligationKind
  | .held k | .mayHold k => some k
  | .empty | .resolved | .mayHoldAmbiguous => none

def display : VarState → String
  | .empty => "empty"
  | .held k => "held(" ++ k.asStr ++ ")"
  | .mayHold k => "may-hold(" ++ k.asStr ++ ")"
  | .mayHoldAmbiguous => "may-hold(ambiguous)"
  | .resolved => "resolved"

@[simp]
theorem isLeak_join (s t : VarState) : (s.join t).isLeak = (s.isLeak || t.isLeak) := by
  cases s <;> cases t <;> simp only [join] <;> first | rfl | (split <;> rfl)

/-- A join is definitely held only if both sides are. -/
theorem isHeld_of_join {s t : VarState} (h : (s.join t).isHeld = true) :
    s.isHeld = true ∧ t.isHeld = true := by
  cases s <;> cases t <;> simp only [join] at h <;>
    first
    | exact ⟨rfl, rfl⟩
    | cases h
    | (split at h <;> cases h)

end VarState

/-- Instruction of the structured obligation program. -/
inductive Instruction where
  | reserve (var : ObligationVar) (kind : ObligationKind)
  | commit (var : ObligationVar)
  | abort (var : ObligationVar)
  | branch (arms : List (List Instruction))

/-- A function body: its name and its instructions in program order. -/
structure Body where
  name : String
  instructions : List Instruction

inductive DiagnosticKind where
  | definiteLeak
  | potentialLeak
  | doubleResolve
  | resolveUnheld
deriving DecidableEq, Repr

inductive DiagnosticCode where
  | leakExitDefinite
  | leakExitPotential
  | overwriteActive
  | doubleResolve
  | resolveUnheld
deriving DecidableEq, Repr

namespace DiagnosticCode

def asStr : DiagnosticCode → String
  | .leakExitDefinite => "OBL-STATIC-LEAK-EXIT-DEFINITE"
  | .leakExitPotential => "OBL-STATIC-LEAK-EXIT-POTENTIAL"
  | .overwriteActive => "OBL-STATIC-OVERWRITE-ACTIVE"
  | .doubleResolve => "OBL-STATIC-DOUBLE-RESOLVE"
  | .resolveUnheld => "OBL-STATIC-RESOLVE-UNHELD"

def remediationHint : DiagnosticCode → String
  | .leakExitDefinite =>
    "Resolve the obligation before scope exit by committing or aborting it."
  | .leakExitPotential =>
    "Ensure every branch resolves the obligation or makes ownership transfer explicit."
  | .overwriteActive =>
    "Resolve or move the existing obligation before reusing the same variable."
  | .doubleResolve =>
    "Remove the duplicate commit/abort so each obligation is consumed exactly once."
  | .resolveUnheld =>
    "Only resolve variables that were reserved on the current analyzed path."

end DiagnosticCode

/-- Where a diagnostic is attached: an instruction of the program, or its exit. -/
inductive DiagnosticLocationKind where
  | instruction
  | scopeExit
deriving DecidableEq, Repr

structure DiagnosticLocation where
  kind : DiagnosticLocationKind
  instructionPath : List Nat
  branchArms : List Nat
deriving DecidableEq, Repr

namespace DiagnosticLocation

def instruction (instructionPath branchArms : List Nat) : DiagnosticLocation :=
  { kind := .instruction, instructionPath := instructionPath, branchArms := branchArms }

def scopeExit : DiagnosticLocation :=
  { kind := .scopeExit, instructionPath := [], branchArms := [] }

end DiagnosticLocation

/-- What the checker covers and what it leaves to others. -/
structure StaticLeakCheckContract where
  checkerId : String
  irSurface : String
  supportedInstructions : List String
  diagnosticCodes : List String
  inScopePatterns : List String
  outOfScopePatterns : List String
  runtimeOracles : List String
  interpretationGuidance : List String
deriving DecidableEq, Repr

def staticLeakCheckContract : StaticLeakCheckContract :=
  { checkerId := "obligation-static-leak-checker-v1"
    irSurface := "Body with Instruction::\x7bReserve, Commit, Abort, Branch\x7d"
    supportedInstructions := ["Reserve", "Commit", "Abort", "Branch"]
    diagnosticCodes :=
      ["OBL-STATIC-LEAK-EXIT-DEFINITE",
       "OBL-STATIC-LEAK-EXIT-POTENTIAL",
       "OBL-STATIC-OVERWRITE-ACTIVE",
       "OBL-STATIC-DOUBLE-RESOLVE",
       "OBL-STATIC-RESOLVE-UNHELD"]
    inScopePatterns :=
      ["single-body reserve/commit-or-abort flows",
       "branch-sensitive resolution on structured if/match-style control flow",
       "conservative peak outstanding-obligation counting on the same structured IR"]
    outOfScopePatterns :=
      ["loops/recursion without explicit unrolling into the IR",
       "interprocedural aliasing, borrowing, or ownership transfer not represented in Body",
       "ambient Drop-based cleanup or runtime side effects outside the IR",
       "Rust-source parsing, macro expansion, and dynamic dispatch analysis"]
    runtimeOracles :=
      ["RuntimeObligationValidator live reserve/commit/abort hook API",
       "src/obligation/ledger.rs",
       "src/obligation/marking.rs",
       "src/obligation/no_leak_proof.rs",
       "src/obligation/graded.rs"]
    interpretationGuidance :=
      ["clean results apply only to the supplied structured IR, not arbitrary Rust code",
       "graded budget counts are conservative upper bounds for the restricted IR, " ++
         "not admission proofs",
       "runtime oracles remain authoritative for uncovered patterns and production " ++
         "enforcement"] }

/-- Outstanding-obligation counts over the analysed program. -/
structure GradedBudgetSummary where
  conservativePeakOutstanding : Nat
  exitOutstandingUpperBound : Nat
  peakOutstandingByKind : ExtTreeMap ObligationKind Nat
  ambiguousPeakOutstanding : Nat
  interpretation : String

structure Diagnostic where
  code : DiagnosticCode
  kind : DiagnosticKind
  var : ObligationVar
  obligationKind : Option ObligationKind
  location : DiagnosticLocation
  scope : String
  remediationHint : String
  message : String
deriving DecidableEq, Repr

structure CheckResult where
  scope : String
  diagnostics : List Diagnostic
  contract : StaticLeakCheckContract
  gradedBudget : GradedBudgetSummary

abbrev VarStates := ExtTreeMap ObligationVar VarState

/-- The checker: the abstract state, the diagnostics so far and the peak counts. -/
structure LeakChecker where
  state : VarStates
  diagnostics : List Diagnostic
  scopeName : String
  peakOutstanding : Nat
  peakOutstandingByKind : ExtTreeMap ObligationKind Nat
  peakAmbiguousOutstanding : Nat

def displayVar (v : ObligationVar) : String := "v" ++ toString v

namespace LeakChecker

def pushDiagnostic (c : LeakChecker) (code : DiagnosticCode) (kind : DiagnosticKind)
    (var : ObligationVar) (obligationKind : Option ObligationKind)
    (location : DiagnosticLocation) (message : String) : LeakChecker :=
  { c with
    diagnostics := c.diagnostics ++
      [{ code := code
         kind := kind
         var := var
         obligationKind := obligationKind
         location := location
         scope := c.scopeName
         remediationHint := code.remediationHint
         message := message }] }

/-- Counts of one pass over the abstract state: all that may be held, those of a
known kind by kind, and those of an ambiguous kind. -/
structure BudgetCount where
  outstanding : Nat
  outstandingByKind : ExtTreeMap ObligationKind Nat
  ambiguousOutstanding : Nat

def BudgetCount.add (n : BudgetCount) : VarState → BudgetCount
  | .held k | .mayHold k =>
    { n with
      outstanding := n.outstanding + 1
      outstandingByKind := n.outstandingByKind.insert k (n.outstandingByKind.getD k 0 + 1) }
  | .mayHoldAmbiguous =>
    { n with
      outstanding := n.outstanding + 1
      ambiguousOutstanding := n.ambiguousOutstanding + 1 }
  | .empty | .resolved => n

def budgetCount (state : VarStates) : BudgetCount :=
  state.foldl (fun n _ s => n.add s)
    { outstanding := 0, outstandingByKind := ∅, ambiguousOutstanding := 0 }

def recordBudgetSnapshot (c : LeakChecker) : LeakChecker :=
  let n := budgetCount c.state
  { c with
    peakOutstanding := max c.peakOutstanding n.outstanding
    peakAmbiguousOutstanding := max c.peakAmbiguousOutstanding n.ambiguousOutstanding
    peakOutstandingByKind :=
      n.outstandingByKind.foldl
        (fun peaks kind count =>
          match peaks[kind]? with
          | some peak => peaks.insert kind (max peak count)
          | none => peaks.insert kind count)
        c.peakOutstandingByKind }

/-- A reserve reports the obligation it overwrites, if the variable may hold one. -/
def checkReserve (c : LeakChecker) (var : ObligationVar) (kind : ObligationKind)
    (location : DiagnosticLocation) : LeakChecker :=
  let c :=
    match c.state[var]? with
    | some existing =>
      if existing.isLeak then
        c.pushDiagnostic .overwriteActive
          (if existing.isHeld then .definiteLeak else .potentialLeak) var existing.kind
          location
          (displayVar var ++ " already holds " ++ existing.display ++
            ", overwriting with new " ++ kind.asStr ++ " reserve")
      else c
    | none => c
  { c with state := c.state.insert var (.held kind) }

/-- A commit and an abort differ only in the word of their messages. -/
def checkResolve (c : LeakChecker) (var : ObligationVar) (action : String)
    (location : DiagnosticLocation) : LeakChecker :=
  match c.state[var]? with
  | some (.held _) | some (.mayHold _) | some .mayHoldAmbiguous =>
    { c with state := c.state.insert var .resolved }
  | some .resolved =>
    c.pushDiagnostic .doubleResolve .doubleResolve var none location
      (displayVar var ++ " already resolved, " ++ action ++ " is redundant/error")
  | some .empty | none =>
    c.pushDiagnostic .resolveUnheld .resolveUnheld var none location
      (displayVar var ++ " was never reserved, cannot " ++ action)

/-- The state of a variable in one arm; a variable the arm never met is empty. -/
def lookup (state : VarStates) (var : ObligationVar) : VarState := state.getD var .empty

def allVars (states : List VarStates) : ExtTreeSet ObligationVar :=
  states.foldl (fun vars state => state.foldl (fun vars var _ => vars.insert var) vars) ∅

def joinStates (states : List VarStates) : VarStates :=
  match states with
  | [] => ∅
  | [state] => state
  | first :: rest =>
    (allVars (first :: rest)).foldl
      (fun result var =>
        result.insert var
          (rest.foldl (fun joined state => joined.join (lookup state var))
            (lookup first var)))
      ∅

mutual

def checkInstruction (c : LeakChecker) (instr : Instruction)
    (instructionPath branchArms : List Nat) : LeakChecker :=
  match instr with
  | .reserve var kind =>
    c.checkReserve var kind (.instruction instructionPath branchArms)
  | .commit var =>
    c.checkResolve var "commit" (.instruction instructionPath branchArms)
  | .abort var =>
    c.checkResolve var "abort" (.instruction instructionPath branchArms)
  | .branch arms =>
    if arms.isEmpty then c
    else
      let (c', armStates) := checkArms c c.state arms 0 instructionPath branchArms
      { c' with state := joinStates armStates }

def checkInstructions (c : LeakChecker) (instructions : List Instruction) (index : Nat)
    (instructionPrefix branchArms : List Nat) : LeakChecker :=
  match instructions with
  | [] => c
  | instr :: rest =>
    let c' := c.checkInstruction instr (instructionPrefix ++ [index]) branchArms
    checkInstructions c'.recordBudgetSnapshot rest (index + 1) instructionPrefix branchArms

/-- The arms one after the other, each from the entry state; the exit states in the
order of the arms. -/
def checkArms (c : LeakChecker) (entryState : VarStates) (arms : List (List Instruction))
    (armIndex : Nat) (instructionPath branchArms : List Nat) :
    LeakChecker × List VarStates :=
  match arms with
  | [] => (c, [])
  | arm :: rest =>
    let c' := checkInstructions { c with state := entryState } arm 0 instructionPath
      (branchArms ++ [armIndex])
    let (c'', states) :=
      checkArms c' entryState rest (armIndex + 1) instructionPath branchArms
    (c'', c'.state :: states)

end

def checkExitLeak (c : LeakChecker) (var : ObligationVar) : VarState → LeakChecker
  | .held kind =>
    c.pushDiagnostic .leakExitDefinite .definiteLeak var (some kind) .scopeExit
      (displayVar var ++ " holds " ++ kind.asStr ++ " obligation at scope exit")
  | .mayHold kind =>
    c.pushDiagnostic .leakExitPotential .potentialLeak var (some kind) .scopeExit
      (displayVar var ++ " may hold " ++ kind.asStr ++
        " obligation at scope exit (depends on control flow)")
  | .mayHoldAmbiguous =>
    c.pushDiagnostic .leakExitPotential .potentialLeak var none .scopeExit
      (displayVar var ++ " may hold an ambiguous obligation at scope exit " ++
        "(different kinds on different paths)")
  | .empty | .resolved => c

def checkExitLeaks (c : LeakChecker) : LeakChecker :=
  c.state.toList.foldl (fun c entry => c.checkExitLeak entry.1 entry.2) c

def gradedBudgetSummary (c : LeakChecker) : GradedBudgetSummary :=
  { conservativePeakOutstanding := c.peakOutstanding
    exitOutstandingUpperBound := (c.state.toList.filter (fun entry => entry.2.isLeak)).length
    peakOutstandingByKind := c.peakOutstandingByKind
    ambiguousPeakOutstanding := c.peakAmbiguousOutstanding
    interpretation :=
      "Conservative upper bounds over the structured IR only; runtime oracles remain " ++
        "authoritative outside this restricted pilot." }

def checkResult (c : LeakChecker) : CheckResult :=
  { scope := c.scopeName
    diagnostics := c.diagnostics
    contract := staticLeakCheckContract
    gradedBudget := c.gradedBudgetSummary }

/-- The checker as it is reset before a body is checked. -/
def reset (body : Body) : LeakChecker :=
  { state := ∅
    diagnostics := []
    scopeName := body.name
    peakOutstanding := 0
    peakOutstandingByKind := ∅
    peakAmbiguousOutstanding := 0 }

/-- Nothing of an earlier check is read: the checker is reset first. -/
def check (_c : LeakChecker) (body : Body) : CheckResult :=
  let c := (reset body).recordBudgetSnapshot
  let c := c.checkInstructions body.instructions 0 [] []
  c.checkExitLeaks.checkResult

end LeakChecker

end Asupersync
