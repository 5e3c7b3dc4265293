import Asupersync.Plan.Rewrite

/-!
# Rewrite certificates

A certificate records the rewrites of one pass, with hashes and node counts of
the dag before and after it.  The verifier has only the dag the pass left.  It
does not replay anything: it looks up the two nodes of every recorded step in
that dag, compares their shapes, and runs the side conditions of the rule on
them again.

The hash is SHA-256 of a byte encoding of the dag.  The encoding is written out;
the digest function itself is a parameter, since nothing depends on it here.
-/

namespace Asupersync

/-- The eight bytes of a number, the lowest first. -/
def u64LeBytes (n : Nat) : List UInt8 :=
  (List.range 8).map fun i => UInt8.ofNat (n / 256 ^ i)

def idsBytes (children : List Nat) : List UInt8 :=
  u64LeBytes children.length ++ children.flatMap u64LeBytes

/-- What one node adds to the hashed bytes. -/
def hashNode : PlanNode → List UInt8
  | .leaf label => 0 :: (u64LeBytes label.utf8ByteSize ++ label.toUTF8.data.toList)
  | .join children => 1 :: idsBytes children
  | .race children => 2 :: idsBytes children
  | .timeout child duration => 3 :: (u64LeBytes child ++ u64LeBytes (min duration u64Max))

structure PlanHash where
  bytes : Vector UInt8 32
deriving DecidableEq

namespace PlanHash

def hexDigit (n : Nat) : Char :=
  if n < 10 then Char.ofNat (48 + n) else Char.ofNat (87 + n)

def toHex (hash : PlanHash) : String :=
  String.ofList (hash.bytes.toList.flatMap fun byte =>
    [hexDigit (byte.toNat / 16), hexDigit (byte.toNat % 16)])

def of (sha256 : List UInt8 → Vector UInt8 32) (dag : PlanDag) : PlanHash :=
  { bytes := sha256 (u64LeBytes dag.nodes.length ++ dag.nodes.flatMap hashNode ++
      match dag.root with
      | some id => 1 :: u64LeBytes id
      | none => [0]) }

end PlanHash

structure CertificateVersion where
  number : Nat
deriving DecidableEq, Repr

def CertificateVersion.current : CertificateVersion := ⟨1⟩

structure CertifiedStep where
  rule : RewriteRule
  before : Nat
  after : Nat
  detail : String
deriving DecidableEq, Repr

def CertifiedStep.fromRewriteStep (step : RewriteStep) : CertifiedStep where
  rule := step.rule
  before := step.before
  after := step.after
  detail := step.detail

structure RewriteCertificate where
  version : CertificateVersion
  policy : RewritePolicy
  beforeHash : PlanHash
  afterHash : PlanHash
  beforeNodeCount : Nat
  afterNodeCount : Nat
  steps : List CertifiedStep

inductive StepVerifyError where
  | missingBeforeNode (step node : Nat)
  | missingAfterNode (step node : Nat)
  | invalidBeforeShape (step : Nat) (expected : String)
  | invalidAfterShape (step : Nat) (expected : String)
  | sideConditionViolated (step : Nat) (condition : String)
deriving DecidableEq, Repr

inductive VerifyError where
  | versionMismatch (expected found : Nat)
  | hashMismatch (expected actual : String)
  | nodeCountMismatch (expected actual : Nat)
  | invalidStep (error : StepVerifyError)
deriving DecidableEq, Repr

/-- A condition with the error it gives. -/
def demand {ε : Type} (condition : Bool) (error : ε) : Except ε Unit :=
  if condition then .ok () else .error error

namespace PlanDag

/-- The children of the node before the step. -/
def beforeChildren (dag : PlanDag) (op : Combinator) (idx : Nat) (step : CertifiedStep)
    (expected : String) : Except StepVerifyError (List Nat) :=
  match dag.node step.before with
  | none => .error (.missingBeforeNode idx step.before)
  | some node =>
    match op.childrenOf node with
    | some children => .ok children
    | none => .error (.invalidBeforeShape idx expected)

/-- The children of the node after the step. -/
def afterChildren (dag : PlanDag) (op : Combinator) (idx : Nat) (step : CertifiedStep)
    (expected : String) : Except StepVerifyError (List Nat) :=
  match dag.node step.after with
  | none => .error (.missingAfterNode idx step.after)
  | some node =>
    match op.childrenOf node with
    | some children => .ok children
    | none => .error (.invalidAfterShape idx expected)

end PlanDag

/-- The two associativity checks, with the texts of the errors of each combinator. -/
def verifyAssocShape (op : Combinator) (nested exist shape flat : String) (idx : Nat)
    (step : CertifiedStep) (dag : PlanDag) : Except StepVerifyError Unit := do
  let children ← dag.beforeChildren op idx step nested
  match dag.flatten op children with
  | none => .error (.invalidBeforeShape idx exist)
  | some (expected, changed) => do
    demand changed (.invalidBeforeShape idx nested)
    let afterChildren ← dag.afterChildren op idx step shape
    demand (afterChildren == expected) (.invalidAfterShape idx flat)

def verifyJoinAssocShape (idx : Nat) (step : CertifiedStep) (dag : PlanDag) :
    Except StepVerifyError Unit :=
  verifyAssocShape .join "Join with at least one nested Join child" "Join children must exist"
    "Join after JoinAssoc" "Flattened Join children" idx step dag

def verifyRaceAssocShape (idx : Nat) (step : CertifiedStep) (dag : PlanDag) :
    Except StepVerifyError Unit :=
  verifyAssocShape .race "Race with at least one nested Race child" "Race children must exist"
    "Race after RaceAssoc" "Flattened Race children" idx step dag

/-- Equal as multisets, compared on the ids cut to 32 bits. -/
def isPermutation (a b : List Nat) : Bool :=
  a.length == b.length && sortIds (a.map (· % 2 ^ 32)) == sortIds (b.map (· % 2 ^ 32))

def verifyCommuteShape (op : Combinator) (before after multiset : String) (idx : Nat)
    (step : CertifiedStep) (dag : PlanDag) : Except StepVerifyError Unit := do
  let beforeChildren ← dag.beforeChildren op idx step before
  let afterChildren ← dag.afterChildren op idx step after
  demand (isPermutation beforeChildren afterChildren) (.invalidAfterShape idx multiset)

def verifyJoinCommuteShape (idx : Nat) (step : CertifiedStep) (dag : PlanDag) :
    Except StepVerifyError Unit :=
  verifyCommuteShape .join "Join before JoinCommute" "Join after JoinCommute"
    "Join with same multiset of children as before (JoinCommute)" idx step dag

def verifyRaceCommuteShape (idx : Nat) (step : CertifiedStep) (dag : PlanDag) :
    Except StepVerifyError Unit :=
  verifyCommuteShape .race "Race before RaceCommute" "Race after RaceCommute"
    "Race with same multiset of children as before (RaceCommute)" idx step dag

/-- The child and the duration of a timeout, with the errors for the two ways it can fail. -/
def timeoutOr (dag : PlanDag) (id : Nat) (missing shape : StepVerifyError) :
    Except StepVerifyError (Nat × Nat) :=
  match dag.node id with
  | none => .error missing
  | some (.timeout child duration) => .ok (child, duration)
  | some _ => .error shape

def verifyTimeoutMinShape (idx : Nat) (step : CertifiedStep) (dag : PlanDag) :
    Except StepVerifyError Unit := do
  let nested := StepVerifyError.invalidBeforeShape idx "Timeout wrapping a Timeout child"
  let (child, duration) ← timeoutOr dag step.before (.missingBeforeNode idx step.before) nested
  let (innerChild, innerDuration) ← timeoutOr dag child nested nested
  let expectedDuration := if duration ≤ innerDuration then duration else innerDuration
  let (afterChild, afterDuration) ← timeoutOr dag step.after (.missingAfterNode idx step.after)
    (.invalidAfterShape idx "Timeout after TimeoutMin")
  demand (afterChild == innerChild && afterDuration == expectedDuration)
    (.invalidAfterShape idx "Timeout with min(d1,d2) over inner child")

/-- The joins below the race, as the verifier reads them. -/
def verifyJoinChild (policy : RewritePolicy) (dag : PlanDag) (idx child : Nat) :
    Except StepVerifyError (List Nat) :=
  match dag.node child with
  | some (.join children) =>
    if policy.requiresBinaryJoins && children.length != 2 then
      .error (.invalidBeforeShape idx "Binary joins required by Conservative policy")
    else .ok children
  | _ => .error (.invalidBeforeShape idx "Race children must be Join nodes")

def isRace (dag : PlanDag) (id : Nat) : Bool :=
  match dag.node id with
  | some (.race _) => true
  | _ => false

/-- The new node holds the one child the joins share, and a race. -/
def verifyDedupShared (policy : RewritePolicy) (dag : PlanDag) (idx : Nat)
    (joins : List (List Nat)) (afterChildren : List Nat) : Except StepVerifyError Unit :=
  match intersection joins with
  | [shared] => do
    demand (dag.sharedAllowed policy shared)
      (.invalidBeforeShape idx "Shared child must be a Leaf under Conservative policy")
    demand (afterChildren.contains shared)
      (.invalidAfterShape idx "Join containing the shared child after DedupRaceJoin")
    demand (afterChildren.any (isRace dag))
      (.invalidAfterShape idx "Join containing a Race child after DedupRaceJoin")
  | _ => .error (.invalidBeforeShape idx "Race joins must share exactly one child")

def verifyDedupRaceJoinShape (idx : Nat) (step : CertifiedStep) (policy : RewritePolicy)
    (dag : PlanDag) : Except StepVerifyError Unit := do
  let afterChildren ← dag.afterChildren .join idx step "Join node after DedupRaceJoin"
  demand (afterChildren.length == 2)
    (.invalidAfterShape idx "Join with exactly 2 children (shared + race)")
  let children ← dag.beforeChildren .race idx step "Race of Join children before DedupRaceJoin"
  demand (2 ≤ children.length)
    (.invalidBeforeShape idx "Race with >= 2 Join children before DedupRaceJoin")
  demand (!(policy.requiresBinaryJoins && children.length != 2))
    (.invalidBeforeShape idx "Binary race required by Conservative policy")
  let joins ← children.mapM (verifyJoinChild policy dag idx)
  verifyDedupShared policy dag idx joins afterChildren

/-- The shapes of the two nodes of a step, by its rule. -/
def verifyShape (idx : Nat) (step : CertifiedStep) (policy : RewritePolicy) (dag : PlanDag) :
    Except StepVerifyError Unit :=
  match step.rule with
  | .joinAssoc => verifyJoinAssocShape idx step dag
  | .raceAssoc => verifyRaceAssocShape idx step dag
  | .joinCommute => verifyJoinCommuteShape idx step dag
  | .raceCommute => verifyRaceCommuteShape idx step dag
  | .timeoutMin => verifyTimeoutMinShape idx step dag
  | .dedupRaceJoin => verifyDedupRaceJoinShape idx step policy dag

def verifySideConditions (fuel idx : Nat) (step : CertifiedStep) (policy : RewritePolicy)
    (dag : PlanDag) : Option (Except StepVerifyError Unit) := do
  let checker ← SideConditionChecker.new fuel dag
  let checked ← (checkSideConditions fuel step.rule policy checker dag step.before step.after).run
  return checked.mapError (.sideConditionViolated idx)

/-- Every rule looks at the shapes first and at the side conditions last. -/
def verifySingleStep (fuel idx : Nat) (step : CertifiedStep) (policy : RewritePolicy)
    (dag : PlanDag) : Option (Except StepVerifyError Unit) :=
  match verifyShape idx step policy dag with
  | .error error => some (.error error)
  | .ok () => verifySideConditions fuel idx step policy dag

/-- The steps from the one with index `idx` on. -/
def verifyStepsFrom (fuel : Nat) (policy : RewritePolicy) (dag : PlanDag) :
    Nat → List CertifiedStep → Option (Except StepVerifyError Unit)
  | _, [] => some (.ok ())
  | idx, step :: rest => do
    match ← verifySingleStep fuel idx step policy dag with
    | .error error => some (.error error)
    | .ok () => verifyStepsFrom fuel policy dag (idx + 1) rest

namespace RewriteCertificate

def verifySteps (fuel : Nat) (cert : RewriteCertificate) (dag : PlanDag) :
    Option (Except StepVerifyError Unit) :=
  verifyStepsFrom fuel cert.policy dag 0 cert.steps

/-- The checks on the certificate as a whole. -/
def verifyHeader (sha256 : List UInt8 → Vector UInt8 32) (cert : RewriteCertificate)
    (dag : PlanDag) : Except VerifyError Unit := do
  demand (cert.version == .current)
    (.versionMismatch CertificateVersion.current.number cert.version.number)
  let actual := PlanHash.of sha256 dag
  demand (cert.afterHash == actual) (.hashMismatch cert.afterHash.toHex actual.toHex)
  demand (cert.afterNodeCount == dag.nodes.length)
    (.nodeCountMismatch cert.afterNodeCount dag.nodes.length)

def verify (sha256 : List UInt8 → Vector UInt8 32) (fuel : Nat) (cert : RewriteCertificate)
    (dag : PlanDag) : Option (Except VerifyError Unit) :=
  match verifyHeader sha256 cert dag with
  | .error error => some (.error error)
  | .ok () => (cert.verifySteps fuel dag).map (Except.mapError .invalidStep)

end RewriteCertificate

namespace PlanDag

/-- What the pass on `dag` that left `dag'` with these steps is certified by. -/
def certificate (sha256 : List UInt8 → Vector UInt8 32) (dag dag' : PlanDag)
    (policy : RewritePolicy) (steps : List RewriteStep) : RewriteCertificate where
  version := .current
  policy := policy
  beforeHash := PlanHash.of sha256 dag
  afterHash := PlanHash.of sha256 dag'
  beforeNodeCount := dag.nodes.length
  afterNodeCount := dag'.nodes.length
  steps := steps.map CertifiedStep.fromRewriteStep

def applyRewritesCertified (sha256 : List UInt8 → Vector UInt8 32) (fuel : Nat) (dag : PlanDag)
    (policy : RewritePolicy) (rules : List RewriteRule) :
    Option (PlanDag × List RewriteStep × RewriteCertificate) := do
  let (dag', steps) ← dag.applyRewrites fuel policy rules
  return (dag', steps, certificate sha256 dag dag' policy steps)

end PlanDag

end Asupersync
