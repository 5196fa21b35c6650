import Iaam.App.SessionReading
import Iaam.App.TransferPairing

/-! The plan of an import session (`plan_session` of `scenarios/import_session.rs`): what a commit of the session would append,
what the journal holds already, and one stated outcome for every row that is held. -/

namespace Iaam
open Outcome

/-- The cash an event moves on one account. A mixture of currencies is an error. -/
def Event.cashEffectOn (e : Event) (account : AccountId) : Except MoneyError (Option Money) :=
  match (e.legs.filter fun leg => leg.account = account).filterMap Leg.cashEffect with
  | [] => .ok none
  | first :: rest => do
    let effect ← Money.sum (first :: rest) first.currency
    return some effect

namespace SessionPlan
open SessionReading

/-! ### What the journal holds -/

/-- The identities of the journal, as the store compares them: a key is the owner's, an operation is its source's. A
    fingerprint proves nothing; the earliest event that carries it is kept. -/
structure RecordedIdentities where
  keys : Tree.Set String
  operations : Tree.Set (SourceId ×ₗ String)
  fingerprints : Tree.Map String EventId

namespace RecordedIdentities

def note (recorded : RecordedIdentities) (e : Event) : RecordedIdentities where
  keys :=
    match e.idempotencyKey with
    | some key => recorded.keys.insert key
    | none => recorded.keys
  operations :=
    match e.provenance.sourceOperationId with
    | some operation => recorded.operations.insert (toLex (e.provenance.source, operation))
    | none => recorded.operations
  fingerprints :=
    if e.provenance.rawHash ∈ recorded.fingerprints then recorded.fingerprints
    else recorded.fingerprints.insert e.provenance.rawHash e.id

def of (events : List Event) : RecordedIdentities := events.foldl note ⟨∅, ∅, ∅⟩

/-- The journal holds the candidate under an identity of its own. -/
def holds (recorded : RecordedIdentities) (e : Event) : Bool :=
  (e.provenance.sourceOperationId.any fun operation => toLex (e.provenance.source, operation) ∈ recorded.operations) ||
    e.idempotencyKey.any fun key => key ∈ recorded.keys

def resembling (recorded : RecordedIdentities) (e : Event) : Option EventId := recorded.fingerprints[e.provenance.rawHash]?

end RecordedIdentities

/-! ### The facts of a plan -/

/-- A fact as the plan shows it, on the account of its row. A fact that moves no cash there has the amount zero, and
    roubles. -/
structure PlannedFact where
  row : Nat
  account : AccountId
  recordsAs : String
  settledBy : FactBasis
  amountMinor : PostedMinor
  currency : CurrencyCode
  date : Option Date
  idempotencyKey : Option String
  deriving DecidableEq, Repr

def plannedFact (read : ReadRow) (e : Event) : PlannedFact :=
  let account := read.account.getD e.account
  let effect := (e.cashEffectOn account).toOption.join
  { row := read.row
    account
    recordsAs := e.kind.discriminant
    settledBy := read.basis.getD .concluded
    amountMinor := (effect.map Money.amount).getD .zero
    currency := (effect.map Money.currency).getD .rub
    date := e.dates.cashPosted
    idempotencyKey := e.idempotencyKey }

structure ResemblingRow where
  fact : PlannedFact
  resembles : EventId
  deriving DecidableEq, Repr

/-- Why a row records nothing. -/
inductive RetentionReason where
  | unreadable (field expected actual : String)
  | unanswered (question : String)
  deriving DecidableEq, Repr

structure RetainedRow where
  row : Nat
  reason : RetentionReason
  deriving DecidableEq, Repr

structure SettledRow where
  row : Nat
  reason : NoFactReason
  deriving DecidableEq, Repr

inductive ReconciliationOutcome where
  | recorded (recordsAs : String) (settledBy : FactBasis)
  | duplicate (recordsAs : String) (settledBy : FactBasis)
  | retained (reason : RetentionReason)
  | settledWithoutFact (reason : NoFactReason)
  deriving DecidableEq, Repr

structure RowReconciliation where
  row : Nat
  outcome : ReconciliationOutcome
  deriving DecidableEq, Repr

/-! ### The questions that are open -/

structure OpenQuestion where
  row : Nat
  question : String
  prompt : String
  pair : Option (Nat × Nat)
  deriving DecidableEq, Repr

/-- The other row of an open pair, and the name of the pair. -/
def pairOf (mirrors : MirroredRows) (row : Nat) : Option (Nat × Nat) :=
  mirrors.open.findSome? fun (outgoing, incoming, id) =>
    if outgoing = row then some (incoming, id) else if incoming = row then some (outgoing, id) else none

def openQuestions (reading : Reading) (questions : List ImportQuestionView) : List OpenQuestion :=
  (questions.filter (awaitsAnswer reading.rows)).map fun question =>
    ⟨question.row, question.id, question.prompt, pairOf reading.mirrors question.row⟩

/-! ### One outcome for every row -/

/-- The lists of the plan, as the rows are gone through. `appended` holds the events of `facts`. -/
structure Accounting where
  facts : List PlannedFact
  duplicates : List PlannedFact
  resembling : List ResemblingRow
  retained : List RetainedRow
  settledWithoutFact : List SettledRow
  reconciliation : List RowReconciliation
  appended : List Event
  deriving DecidableEq

namespace Accounting

def empty : Accounting := ⟨[], [], [], [], [], [], []⟩

def reconcile (a : Accounting) (row : Nat) (outcome : ReconciliationOutcome) : Accounting :=
  { a with reconciliation := a.reconciliation ++ [⟨row, outcome⟩] }

def settle (a : Accounting) (row : Nat) (reason : NoFactReason) : Accounting :=
  { a.reconcile row (.settledWithoutFact reason) with settledWithoutFact := a.settledWithoutFact ++ [⟨row, reason⟩] }

def retain (a : Accounting) (row : Nat) (reason : RetentionReason) : Accounting :=
  { a.reconcile row (.retained reason) with retained := a.retained ++ [⟨row, reason⟩] }

def duplicate (a : Accounting) (read : ReadRow) (e : Event) : Accounting :=
  let fact := plannedFact read e
  { a.reconcile read.row (.duplicate e.kind.discriminant fact.settledBy) with duplicates := a.duplicates ++ [fact] }

/-- What merely resembles a recorded event is appended all the same. -/
def record (a : Accounting) (recorded : RecordedIdentities) (read : ReadRow) (e : Event) : Accounting :=
  let fact := plannedFact read e
  { a.reconcile read.row (.recorded e.kind.discriminant fact.settledBy) with
    resembling := a.resembling ++ (recorded.resembling e).toList.map fun existing => ⟨fact, existing⟩
    facts := a.facts ++ [fact]
    appended := a.appended ++ [e] }

def add (recorded : RecordedIdentities) («open» : List OpenQuestion) (a : Accounting) (read : ReadRow) : Accounting :=
  match read.candidate with
  | none =>
    match read.settled with
    | some reason => a.settle read.row reason
    | none => a
  | some (.ok e) => if recorded.holds e then a.duplicate read e else a.record recorded read e
  | some (.error rejection) =>
    match «open».find? fun question => question.row = read.row with
    | some question => a.retain read.row (.unanswered question.question)
    | none => a.retain read.row (.unreadable rejection.field rejection.expected rejection.actual)

end Accounting

/-! ### The plan -/

/-- Where a row stands among the verdicts of a commit. -/
inductive Disposition where
  | noFact (reason : NoFactReason)
  | candidate
  deriving DecidableEq, Repr

def dispositionOf (read : ReadRow) : Result PlanError Disposition :=
  match read.settled, read.candidate with
  | some reason, _ => .ok (.noFact reason)
  | none, some _ => .ok .candidate
  | none, none => .error (.error (.unsettledRow read.row))

/-- The candidates of the rows that are not settled. -/
def candidatesOf (rows : List ReadRow) : List (Except Rejection Event) :=
  (rows.filter fun read => read.settled.isNone).filterMap ReadRow.candidate

/-- The cash movements of the facts, without the facts that move none. -/
def movements (facts : List PlannedFact) : List Batch.BatchMovement :=
  (facts.filter fun fact => fact.amountMinor ≠ .zero).map fun fact =>
    ⟨fact.account, ⟨fact.amountMinor, fact.currency⟩, fact.date⟩

/-- The sides that a transfer between sources may be made of. -/
def legsOf (session : ImportSessionId) (rows : List ReadRow) : List CashLeg :=
  rows.filterMap fun read => do
    let e ← read.event
    let leg ← TransferPairing.legOfEvent e
    return { leg with origin := .observed session read.row }

structure CommitDelta where
  accounting : Accounting
  factTotals : List Batch.BatchTotal
  duplicateTotals : List Batch.BatchTotal
  deriving DecidableEq

inductive Readiness where
  | ready
  | blocked (state : ImportSession.SessionState)
  | requiresOwnerDecision (unansweredQuestions transferCandidates rowsResemblingRecorded : Nat)
  | doesNotReconcile (mismatchedFigures misplacedRows : Nat)
  deriving DecidableEq, Repr

/-- How many figures disagree with the rows. -/
def mismatches (comparisons : List Batch.ControlComparison) : Nat :=
  (comparisons.map fun comparison => (comparison.checks.filter Batch.ControlCheck.isMismatch).length).sum

def misplacedRows (comparisons : List Batch.ControlComparison) : Nat :=
  (comparisons.map fun comparison => (comparison.fit.map Batch.IntervalFit.misplaced).getD 0).sum

structure PlannedSession where
  session : SessionView
  rows : List ReadRow
  openQuestions : List OpenQuestion
  matching : Proposals
  delta : CommitDelta
  comparisons : List Batch.ControlComparison
  dispositions : List Disposition
  candidates : List (Except Rejection Event)

namespace PlannedSession

/-- The questions come before the figures, and the figures before what may be a transfer. -/
def readiness (plan : PlannedSession) : Readiness :=
  let candidates := plan.matching.candidates.length
  let resembling := plan.delta.accounting.resembling.length
  if plan.session.state ≠ .open then .blocked plan.session.state
  else if plan.openQuestions ≠ [] then .requiresOwnerDecision plan.openQuestions.length candidates resembling
  else if 0 < mismatches plan.comparisons ∨ 0 < misplacedRows plan.comparisons then
    .doesNotReconcile (mismatches plan.comparisons) (misplacedRows plan.comparisons)
  else if 0 < candidates ∨ 0 < resembling then .requiresOwnerDecision 0 candidates resembling
  else .ready

end PlannedSession

def batchTotals (facts : List PlannedFact) : Result PlanError (List Batch.BatchTotal) :=
  convert .batchTotal (Batch.total (movements facts))

/-- The plan of a reading, against the identities of the journal. -/
def planOf (contents : SessionContents) (recorded : RecordedIdentities) (reading : Reading) :
    Result PlanError PlannedSession := do
  let rows := reading.rows
  let dispositions ← rows.mapM dispositionOf
  let «open» := openQuestions reading contents.questions
  let accounting := rows.foldl (Accounting.add recorded «open») .empty
  match rows.find? fun read => accounting.reconciliation.all fun entry => entry.row ≠ read.row with
  | some unaccounted => .error (.error (.noOutcome unaccounted.row))
  | none =>
    let factTotals ← batchTotals accounting.facts
    let duplicateTotals ← batchTotals accounting.duplicates
    let comparisons ← convert .batchTotal
      (Batch.compare contents.controlFigures (movements (accounting.facts ++ accounting.duplicates)))
    return {
      session := contents.session
      rows
      openQuestions := «open»
      matching := TransferPairing.propose (legsOf contents.session.id rows)
      delta := ⟨accounting, factTotals, duplicateTotals⟩
      comparisons
      dispositions
      candidates := candidatesOf rows }

/-- Reads the session, and says what a commit of it would do. The journal comes in the order of its effect. -/
def planSession (env : Environment) (fresh : Nat → Operation.Fresh) (owner : OwnerId) (resolver : Resolver)
    (contents : SessionContents) (journal : List Event) : Result PlanError PlannedSession := do
  let reading ← read env fresh owner resolver contents
  planOf contents (.of journal) reading

end SessionPlan
end Iaam
