import Iaam.App.Correction
import Iaam.App.Retraction
import Iaam.App.SessionPlan
import Iaam.Event.Validate
import Iaam.Journal.Codes
import Iaam.Lib.Calls
import Iaam.Store.Journal

/-! The commit of an import session (`commit_session` of `scenarios/import_session.rs`, `submit_candidates` of
`scenarios/ingest.rs`) as the calls it makes: it plans the session again, writes its rows one by one, then what the source
states of them, and closes the session. Any of the calls may be the last one. -/

namespace Iaam
open Outcome

/-! ### What the source states -/

/-- What a claim is about, without the value it states. -/
def ControlClaim.subjectKey (claim : ControlClaim) : String :=
  match claim with
  | cashBalance currency _ point => claim.discriminant ++ ":" ++ point.code ++ ":" ++ currency.code
  | positionQuantity instrument _ point => claim.discriminant ++ ":" ++ point.code ++ ":" ++ instrument.text
  | cashTurnover currency _ _ | feesTotal currency _ | incomeTotal currency _ | taxWithheldTotal currency _ =>
    claim.discriminant ++ ":" ++ currency.code

namespace SessionCommit
open JournalStore SessionReading SessionPlan Calls

/-! ### The calls -/

/-- What a commit changes: its session, and the journal. -/
structure Store where
  contents : SessionContents
  journal : List Event

/-- A call of the store. `append` is one transaction of `append_event_in_order`. -/
inductive StoreCall where
  | readSession
  | loadEvents (owner : OwnerId)
  | append (e : Event)
  | close

def Answer : StoreCall → Type
  | .readSession => SessionContents
  | .loadEvents _ => List Event
  | .append _ => Except JournalError Appended
  | .close => Bool

/-- `load_events_through(owner, Date::MAX)`: no event is dated later. -/
def loadEvents (journal : List Event) (owner : OwnerId) : List Event :=
  (journal.filter fun recorded => recorded.owner = owner).insertionSort fun l r => compareForReplay l r ≠ .gt

/-- A session is closed once. -/
def serve (refuses : Event → Option String) : (call : StoreCall) → Store → Answer call × Store
  | .readSession, store => (store.contents, store)
  | .loadEvents owner, store => (loadEvents store.journal owner, store)
  | .append e, store =>
    match appendEventInOrder refuses .source store.journal e with
    | .ok (answer, journal) => (.ok answer, { store with journal })
    | .error error => (.error error, store)
  | .close, store =>
    if store.contents.session.state = .open then
      (true, { store with contents := { store.contents with session := { store.contents.session with state := .committed } } })
    else (false, store)

/-- Why a commit was refused, or where it failed. -/
inductive CommitError where
  | scope
  | plan (e : PlanError)
  | notOpen (state : ImportSession.SessionState)
  | revision (expected actual : String)
  | unanswered (questions : Nat)
  | controlMismatch
  | fewerVerdicts
  | invalidEvent (position : Nat) (actual : String)
  | store (e : JournalError)
  | closed
  deriving DecidableEq, Repr

abbrev Commit (α : Type) := Program StoreCall Answer CommitError α

def readSession : Commit SessionContents := Program.ask StoreCall.readSession
def loadJournal (owner : OwnerId) : Commit (List Event) := Program.ask (StoreCall.loadEvents owner)
def close : Commit Bool := Program.ask StoreCall.close

/-- A write that fails ends the commit. -/
def answered : Except JournalError Appended → Commit Appended
  | .ok answer => .done answer
  | .error error => .stop (.error (.store error))

def append (e : Event) : Commit Appended := Program.ask (StoreCall.append e) >>= answered

/-! ### The verdicts -/

inductive Verdict where
  | provisional (event : EventId)
  | duplicate (existing : EventId)
  | quarantined (reason : String)
  | rejected (rejection : Rejection)
  | noFact (reason : String)
  deriving DecidableEq, Repr

def noFactCode : NoFactReason → String
  | .oneAccountTwoInstruments _ => "one_account_two_instruments"
  | .secondLegOfOneMovement _ => "second_leg_of_one_movement"

/-- What a journal says has become of an event. -/
def removalDisposition (journal : List Event) (event : EventId) : Option String :=
  let withdrawn := journal.any fun candidate => candidate.relation = .reversal event
  let superseded := journal.any fun candidate => candidate.relation = .replacement event
  match withdrawn, superseded with
  | true, true => some "withdrawn and superseded"
  | true, false => some "withdrawn"
  | false, true => some "superseded"
  | false, false => none

/-- `Debug` of an event identifier. -/
def eventDebug (event : EventId) : String := "EventId(" ++ event.text ++ ")"

def quarantineReason (key : Option String) (existing : EventId) (disposition : String) : String :=
  let identity := match key with
    | none => "the source operation identity"
    | some key => "idempotency key " ++ key
  identity ++ " is held by event " ++ eventDebug existing ++ ", which was " ++ disposition ++
    "; submit POST /v1/corrections with a new idempotency key and a replacement correction operation (relation: " ++
    "replacement, target: " ++ eventDebug existing ++ ") to record the corrected value"

/-! ### The commit -/

/-- What a commit takes from elsewhere: the reading, the hash of an operation, the texts of structural errors, the stamp of a
    plan, the digest of a control section, and the coverage gaps of the rows a plan declines, before their identifiers are
    drawn. -/
structure Context where
  env : Environment
  fingerprint : SubmittedOperation → String
  explain : EventValidationError → String
  stamp : PlannedSession → String
  sectionHash : Batch.ControlSection → String
  coverageGaps : OwnerId → PrincipalId → PlannedSession → List Event

/-- One call of the commit: who makes it, what he says, and the identifiers that are drawn for it. -/
structure Request where
  principal : Principal
  maySubmit : Bool
  revision : Option String
  acceptControlMismatch : Bool
  drawn : Nat → EventId × TransferId
  stated : Nat → EventId

/-- What normalisation takes for a row. -/
def Context.fresh (context : Context) (request : Request) (row : Nat) : Operation.Fresh :=
  ⟨(request.drawn row).1, (request.drawn row).2, context.fingerprint⟩

structure CommitOutcome where
  revision : String
  verdicts : List Verdict
  controlAssertions : List Appended
  coverageGaps : List Appended

def structuralRejection (context : Context) (e : Event) (field : String) : Option Rejection :=
  match e.validateStructure with
  | .ok () => none
  | .error error => some ⟨field, "event shape matching its type", context.explain error⟩

/-- The provenance that every submission of the commit carries. -/
def stamped (session : ImportSessionId) (declaredBy : PrincipalId) (e : Event) : Event :=
  { e with provenance := { e.provenance with declaredBy := some declaredBy, importSession := some session } }

/-- An identity that a withdrawn or a superseded event holds is not an ordinary duplicate. -/
def duplicateVerdict (journal : List Event) (key : Option String) (existing : EventId) : Verdict :=
  match removalDisposition journal existing with
  | some disposition => .quarantined (quarantineReason key existing disposition)
  | none => .duplicate existing

/-- What became of a candidate that was written. The answer to a duplicate reads the journal. -/
def answerVerdict (e : Event) : Appended → Commit Verdict
  | .inserted id => .done (.provisional id)
  | .duplicate existing => do
    let journal ← loadJournal e.owner
    return duplicateVerdict journal e.idempotencyKey existing

/-- Writes one event, unless its structure is invalid. -/
def recordCandidate (context : Context) (e : Event) (field : String) : Commit Verdict :=
  match structuralRejection context e field with
  | some rejection => .done (.rejected rejection)
  | none => append e >>= answerVerdict e

def submitCandidate (context : Context) (session : ImportSessionId) (declaredBy : PrincipalId) :
    Except Rejection Event → Commit Verdict
  | .error rejection => .done (.rejected rejection)
  | .ok e => recordCandidate context (stamped session declaredBy e) "operation"

def submitCandidates (context : Context) (session : ImportSessionId) (declaredBy : PrincipalId) :
    List (Except Rejection Event) → Commit (List Verdict)
  | [] => .done []
  | candidate :: candidates => do
    let verdict ← submitCandidate context session declaredBy candidate
    let verdicts ← submitCandidates context session declaredBy candidates
    return verdict :: verdicts

/-- One verdict for every row: those of the candidates at the rows that have one. -/
def placeVerdicts : List Disposition → List Verdict → Option (List Verdict)
  | [], _ => some []
  | .noFact reason :: dispositions, written => (placeVerdicts dispositions written).map (.noFact (noFactCode reason) :: ·)
  | .candidate :: dispositions, verdict :: written => (placeVerdicts dispositions written).map (verdict :: ·)
  | .candidate :: _, [] => none

def controlMismatchRefusal (comparisons : List Batch.ControlComparison) : Bool :=
  comparisons.any fun comparison => comparison.checks.any Batch.ControlCheck.isMismatch ||
    (comparison.stated.isSome && comparison.fit.any fun fit => 0 < fit.misplaced)

def controlParserVersion : String := "import-control/1"

/-- The session is not in the key: two imports of one statement state one fact. -/
def controlAssertionKey (account : AccountId) (period : AssertionPeriod) (claim : ControlClaim) : String :=
  "source-control:v1:" ++ account.text ++ ":" ++ period.from.text ++ ":" ++ period.to.text ++ ":" ++ claim.subjectKey

def controlClaims («section» : Batch.ControlSection) : List ControlClaim :=
  let balance (point : BalancePoint) (amount : Option PostedMinor) : List ControlClaim :=
    amount.toList.map fun amount => .cashBalance «section».currency amount point
  let turnover : List ControlClaim :=
    if «section».debitTurnover.isSome || «section».creditTurnover.isSome then
      [.cashTurnover «section».currency («section».debitTurnover.getD .zero) («section».creditTurnover.getD .zero)]
    else []
  balance .opening «section».opening ++ balance .closing «section».closing ++ turnover

/-- The event that states a claim, dated at the end of the interval it speaks about, before its identifier is drawn. -/
def controlAssertion (context : Context) (owner : OwnerId) (declaredBy : PrincipalId) (session : SessionView)
    («section» : Batch.ControlSection) (claim : ControlClaim) : Event where
  id := ⟨0⟩
  owner
  account := «section».account
  kind := .controlAssertion «section».period claim
  dates := .forCash «section».period.to
  order := ⟨«section».period.to, none, 1⟩
  legs := []
  provenance := {
    source := (sessionOrigin context.env owner session «section».account).source
    rawHash := context.sectionHash «section»
    parserVersion := controlParserVersion
    declaredBy := some declaredBy
    importSession := some session.id }
  relation := .none
  confidence := .known
  idempotencyKey := some (controlAssertionKey «section».account «section».period claim)

def controlAssertions (context : Context) (owner : OwnerId) (declaredBy : PrincipalId) (plan : PlannedSession) :
    List Event :=
  (plan.comparisons.filterMap Batch.ControlComparison.stated).flatMap fun «section» =>
    (controlClaims «section»).map fun claim => controlAssertion context owner declaredBy plan.session «section» claim

/-- What the commit states beside the rows: the figures of the source, and the rows it was handed and declined. -/
def statements (context : Context) (owner : OwnerId) (declaredBy : PrincipalId) (stated : Nat → EventId)
    (plan : PlannedSession) : List Event :=
  (controlAssertions context owner declaredBy plan ++ context.coverageGaps owner declaredBy plan).mapIdx fun i e =>
    { e with id := stated i }

def appendEvents : List Event → Commit (List Appended)
  | [] => .done []
  | e :: events => do
    let answer ← append e
    let answers ← appendEvents events
    return answer :: answers

/-- Every event is validated before one is written. -/
def appendChecked (context : Context) (events : List Event) : Commit (List Appended) :=
  match events.zipIdx.findSome? fun (e, i) => (structuralRejection context e "event").map fun rejection => (i, rejection) with
  | some (i, rejection) => .stop (.error (.invalidEvent i rejection.actual))
  | none => appendEvents events

/-- Why a planned session may not be committed. -/
def refusal (context : Context) (request : Request) (plan : PlannedSession) : Option CommitError :=
  if plan.session.state ≠ .open then some (.notOpen plan.session.state)
  else
    match request.revision.filter (· ≠ context.stamp plan) with
    | some revision => some (.revision (context.stamp plan) revision)
    | none =>
      if plan.openQuestions ≠ [] then some (.unanswered plan.openQuestions.length)
      else if !request.acceptControlMismatch && controlMismatchRefusal plan.comparisons then some .controlMismatch
      else none

/-- What is written of a plan. The assertions go in after the rows, and the session closes last. -/
def writePlan (context : Context) (request : Request) (plan : PlannedSession) : Commit CommitOutcome := do
  let declaredBy := request.principal.id
  let written ← submitCandidates context plan.session.id declaredBy plan.candidates
  match placeVerdicts plan.dispositions written with
  | none => .stop (.error .fewerVerdicts)
  | some verdicts =>
    let recorded ← appendChecked context (statements context request.principal.owner declaredBy request.stated plan)
    if ← close then
      let assertions := (controlAssertions context request.principal.owner declaredBy plan).length
      return ⟨context.stamp plan, verdicts, recorded.take assertions, recorded.drop assertions⟩
    else .stop (.error .closed)

/-- The commit, with the plan that it was made by. -/
def commitPlanned (context : Context) (resolver : Resolver) (request : Request) : Commit (PlannedSession × CommitOutcome) :=
  if request.maySubmit then do
    let contents ← readSession
    let journal ← loadJournal request.principal.owner
    let plan ← Program.ofResult (reraise .plan
      (planSession context.env (context.fresh request) request.principal.owner resolver contents journal))
    match refusal context request plan with
    | some error => .stop (.error error)
    | none => do
      let outcome ← writePlan context request plan
      return (plan, outcome)
  else .stop (.error .scope)

def commitSession (context : Context) (resolver : Resolver) (request : Request) : Commit CommitOutcome := do
  let (_, outcome) ← commitPlanned context resolver request
  return outcome

end SessionCommit
end Iaam
