import Iaam.App.Retraction
import Iaam.Event.Validate
import Iaam.Ingest.Dedup
import Iaam.Journal.Codes
import Iaam.Lib.Calls
import Iaam.Reconciliation.Ledger
import Iaam.Store.SyncRefusals

/-! The synchronisation of an account with its broker (`sync_broker` of `scenarios/sync.rs`, `scenarios/coverage_gap.rs`) as the
calls it makes: it claims the account, finds its number at the broker, writes the operations one by one, then the gap that the
refused rows leave and what the portfolio states, and keeps the refused rows as questions of the owner. -/

namespace Iaam

/-! ### Coverage gaps -/

/-- The control dimensions that a refused operation leaves unconfirmed. -/
def operationDimensions : OperationKind → Finset Dimension
  | .buy .. | .sell .. => {.cash, .positions}
  | .income .. => {.cash, .income}
  | .deposit .. | .withdrawal .. | .refund .. | .transfer .. | .ownAccountMovement .. | .fee .. | .tax .. | .openingCash .. =>
    {.cash}
  | .openingPosition .. => {.positions}
  | .valuation .. | .statedSecuritiesValue .. => ∅

/-- The dimensions of a set, in their order. -/
def dimensionList (dimensions : Finset Dimension) : List Dimension :=
  [.cash, .positions, .taxBasis, .income].filter fun dimension => dimension ∈ dimensions

def rowDimensions (rows : List RefusedRow) : Finset Dimension :=
  rows.foldl (fun dimensions row => dimensions ∪ row.dimensions) ∅

/-- Whose gap, and of which days. -/
structure GapTarget where
  owner : OwnerId
  account : AccountId
  period : AssertionPeriod

/-- The gap that refused rows leave. Rows that leave no dimension unconfirmed are none. -/
def gapEvent (id : EventId) (target : GapTarget) (rows : List RefusedRow) (provenance : Provenance) (idempotencyKey : String) :
    Option Event :=
  if rows.isEmpty || rowDimensions rows = ∅ then none
  else some {
    id
    owner := target.owner
    account := target.account
    kind := .importCoverageGap target.period (rowDimensions rows) (min rows.length 4294967295) rows
    dates := .forCash target.period.to
    order := ⟨target.period.to, none, 0⟩
    legs := []
    provenance
    relation := .none
    confidence := .known
    idempotencyKey := some idempotencyKey }

namespace Sync
open Outcome JournalStore Calls SyncRefusals

/-! ### The broker -/

inductive BrokerError where
  | noAccess (broker : String)
  | scopeNotReadOnly (broker : String)
  | refused (broker detail : String)
  | unreachable (broker detail : String) (retryAfter : Option Nat)
  | requestCeiling (broker : String) (ceiling : Nat)
  | unparsable (broker detail : String)
  | adapter (broker detail : String)
  deriving DecidableEq, Repr

def BrokerError.text : BrokerError → String
  | noAccess broker => "access to broker " ++ broker ++ " has not been configured"
  | scopeNotReadOnly broker => "access to broker " ++ broker ++ " has been configured with permissions other than read-only"
  | refused broker detail => "broker " ++ broker ++ " rejected the request: " ++ detail
  | unreachable broker detail _ => "broker " ++ broker ++ " is unavailable: " ++ detail
  | requestCeiling broker ceiling => "broker " ++ broker ++ " request ceiling of " ++ toString ceiling ++
    " attempts reached; the range is too long for one sync; narrow it and sync again"
  | unparsable broker detail => "response from broker " ++ broker ++ " could not be parsed: " ++ detail
  | adapter broker detail => "the " ++ broker ++ " adapter reached a state it excludes: " ++ detail

/-- A row of the broker that became neither an operation nor a claim, by the JSON it came as. -/
structure Quarantined where
  raw : String
  reason : String
  dimensions : Finset Dimension
  deriving DecidableEq

structure ParsedOperations where
  accepted : List SubmittedOperation
  quarantined : List Quarantined

/-- What the answer of a channel describes: the day that was asked about, or its own. -/
inductive PortfolioAsOf where
  | requested | current
  deriving DecidableEq, Repr

structure PortfolioSnapshot where
  asOf : PortfolioAsOf
  claims : List ControlClaim
  refused : List Quarantined
  observedOn : Option Date

/-- The channel to a broker, with its answers to one synchronisation. Those about an account are asked for by its number. -/
structure BrokerChannel where
  channel : SourceChannel
  identityScope : IdentityScope
  accountNumbers : Except BrokerError (List String)
  operations : String → Except BrokerError ParsedOperations
  portfolio : String → Except BrokerError PortfolioSnapshot

/-! ### The calls -/

/-- The number by which a broker knows an account of an owner. -/
structure Binding where
  owner : OwnerId
  account : AccountId
  broker : String
  number : String
  deriving DecidableEq, Repr

/-- What a synchronisation finds and changes. The accounts with a running synchronisation are those of this process. -/
structure Store where
  journal : List Event
  accounts : List (OwnerId × AccountId)
  bindings : List Binding
  refusals : List SyncRefusalRecord
  running : List (OwnerId × AccountId)

inductive BindingError where
  | accountNotFound (id : String)
  | held (account : AccountId)
  | constraint
  deriving DecidableEq, Repr

/-- A call of the store, or of the set of running synchronisations. -/
inductive StoreCall where
  | claim (owner : OwnerId) (account : AccountId)
  | release (owner : OwnerId) (account : AccountId)
  | brokerAccountBinding (owner : OwnerId) (account : AccountId) (broker : String)
  | recordBrokerAccountBinding (binding : Binding)
  | loadEventsThrough (owner : OwnerId) (through : Date)
  | append (scope : IdentityScope) (e : Event)
  | upsertSyncRefusal (record : SyncRefusalRecord)
  | settleSyncRefusalsBesides (filter : SyncRefusalFilter) (rowKeys : List String)

def Answer : StoreCall → Type
  | .claim .. => Bool
  | .brokerAccountBinding .. => Option String
  | .recordBrokerAccountBinding _ => Except BindingError Unit
  | .loadEventsThrough .. => List Event
  | .append .. => Except JournalError Appended
  | .release .. | .upsertSyncRefusal _ | .settleSyncRefusalsBesides .. => Unit

def brokerAccountBinding (bindings : List Binding) (owner : OwnerId) (account : AccountId) (broker : String) : Option String :=
  (bindings.find? fun held => held.owner = owner && held.account = account && held.broker = broker).map Binding.number

/-- A number belongs to one account of an owner. A binding that is stated again replaces the one that stood. -/
def recordBrokerAccountBinding (accounts : List (OwnerId × AccountId)) (bindings : List Binding) (binding : Binding) :
    Except BindingError (List Binding) :=
  if (binding.owner, binding.account) ∉ accounts then .error (.accountNotFound binding.account.text)
  else
    match bindings.find? fun held => held.owner = binding.owner && held.broker = binding.broker &&
        held.number = binding.number && held.account ≠ binding.account with
    | some held => .error (.held held.account)
    | none =>
      if binding.number = "" then .error .constraint
      else .ok (binding :: bindings.filter fun held =>
        !(held.owner = binding.owner && held.account = binding.account && held.broker = binding.broker))

/-- `refuses` is what the write of an event checks beside the unique indexes. -/
def serve (refuses : Event → Option String) : (call : StoreCall) → Store → Answer call × Store
  | .claim owner account, store =>
    if (owner, account) ∈ store.running then (false, store)
    else (true, { store with running := (owner, account) :: store.running })
  | .release owner account, store => ((), { store with running := store.running.filter (· ≠ (owner, account)) })
  | .brokerAccountBinding owner account broker, store => (Sync.brokerAccountBinding store.bindings owner account broker, store)
  | .recordBrokerAccountBinding binding, store =>
    match Sync.recordBrokerAccountBinding store.accounts store.bindings binding with
    | .ok bindings => (.ok (), { store with bindings })
    | .error error => (.error error, store)
  | .loadEventsThrough owner through, store => (JournalStore.loadEventsThrough store.journal owner through, store)
  | .append scope e, store =>
    match appendEventInOrder refuses scope store.journal e with
    | .ok (answer, journal) => (.ok answer, { store with journal })
    | .error error => (.error error, store)
  | .upsertSyncRefusal record, store =>
    ((), { store with refusals := SyncRefusals.upsertSyncRefusal record store.refusals })
  | .settleSyncRefusalsBesides filter rowKeys, store =>
    ((), { store with refusals := SyncRefusals.settleSyncRefusalsBesides filter rowKeys store.refusals })

/-- Why a synchronisation was refused, or where it failed. -/
inductive SyncError where
  | invalid (field expected actual : String)
  | conflict (what : String)
  | brokerAccountUnseen (broker : String)
  | brokerAccountAmbiguous (broker : String) (candidates : List String)
  | sourceUnreachable (origin detail : String) (retryAfter : Option Nat)
  | syncRequestCeiling (origin : String) (ceiling : Nat)
  | sourceRefused (origin detail : String)
  | sourceUnreadable (origin detail : String)
  | store (what : String)
  | journal (e : JournalError)
  | binding (e : BindingError)
  deriving DecidableEq, Repr

/-- A broker that is down or refuses is not the store failing. -/
def brokerError : BrokerError → SyncError
  | .unreachable broker detail retryAfter => .sourceUnreachable broker detail retryAfter
  | .requestCeiling broker ceiling => .syncRequestCeiling broker ceiling
  | .refused broker detail => .sourceRefused broker (detail ++ "; check the broker access configured for this owner")
  | .unparsable broker detail => .sourceUnreadable broker detail
  | .adapter broker detail => .store ("broker synchronisation: " ++ (BrokerError.adapter broker detail).text)
  | .noAccess broker => .store ("broker synchronisation: " ++ (BrokerError.noAccess broker).text)
  | .scopeNotReadOnly broker => .store ("broker synchronisation: " ++ (BrokerError.scopeNotReadOnly broker).text)

abbrev Synchronisation (α : Type) := Program StoreCall Answer SyncError α

def fail {α : Type} (e : SyncError) : Synchronisation α := .stop (.error e)

/-- What a broker answered, or the end of the synchronisation. -/
def fetched {α : Type} (answer : Except BrokerError α) : Synchronisation α := Program.ofResult (convert brokerError answer)

/-! ### What is asked for, and what comes of it -/

/-- What a synchronisation takes from elsewhere: hashes, the JSON of an operation, and how texts, claims and structural errors
    print. -/
structure Context where
  digest : String → String
  fingerprint : SubmittedOperation → String
  operationText : SubmittedOperation → String
  quoted : String → String
  claimText : ControlClaim → String
  explain : EventValidationError → String

/-- Who asks for a synchronisation, of which account and days, and on which day. -/
structure Request where
  principal : Principal
  scope : Scope
  brokerCode : String
  account : AccountId
  «from» : Date
  «to» : Date
  today : Date

/-- The identifiers that are drawn at random. The events of a synchronisation draw theirs one after another. -/
structure Draws where
  event : Nat → EventId
  transfer : Nat → TransferId
  refusal : Nat → Nat

inductive Verdict where
  | provisional (event : EventId)
  | duplicate (existing : EventId)
  | possibleDuplicate (event «of» : EventId) (level : DedupLevel)
  | rejected (rejection : Rejection)
  | quarantined (reason : String)
  deriving DecidableEq

structure SyncOutcome where
  recorded : List Verdict
  duplicates : Nat
  possibleDuplicates : Nat
  setAside : Nat
  assertions : Nat
  /-- The day of the portfolio, when it is not the one that was asked about. -/
  assertionsWithheld : Option Date
  bindingRecorded : Bool

/-- How far a synchronisation is. -/
structure Progress where
  known : List KnownRecord
  recorded : List Verdict := []
  duplicates : Nat := 0
  possibleDuplicates : Nat := 0
  assertions : Nat := 0
  refusals : List RefusedRow := []
  refusalRecords : List SyncRefusalRecord := []

section
variable (context : Context) (broker : BrokerChannel) (request : Request) (draws : Draws)

def rowNameText : RowName → String
  | .given name => "given:" ++ name
  | .fingerprint hash => "fingerprint:" ++ hash

def fingerprintOf (raw : String) : RowName := .fingerprint (context.digest raw)

/-- An empty identifier is not one. -/
def refusedRow (operation : SubmittedOperation) : RefusedRow where
  key := ⟨broker.channel.source,
    match operation.sourceOperationId.filter (· ≠ "") with
    | some id => .given id
    | none => .fingerprint (context.digest (context.operationText operation))⟩
  dimensions := operationDimensions operation.kind

def rejectionSentence (rejection : Rejection) : String :=
  rejection.field ++ ": expected " ++ rejection.expected ++ ", received " ++ rejection.actual

/-- A refused row as a question of the owner. -/
def refusalRecord (id : Nat) (row : RefusedRow) (reason payload : String) : SyncRefusalRecord where
  id
  owner := request.principal.owner
  account := request.account
  source := broker.channel.source.text
  rowKey := rowNameText row.key.row
  rangeFrom := request.from.text
  rangeTo := request.to.text
  dimensions := "|".intercalate ((dimensionList row.dimensions).map Dimension.code)
  reason
  payload
  settled := false

def Progress.setAside (p : Progress) (row : RefusedRow) (reason payload : String) : Progress :=
  { p with
    refusals := p.refusals ++ [row]
    refusalRecords := p.refusalRecords ++
      [refusalRecord broker request (draws.refusal p.refusalRecords.length) row reason payload] }

def Progress.reject (p : Progress) (operation : SubmittedOperation) (rejection : Rejection) : Progress :=
  let p := p.setAside broker request draws (refusedRow context broker operation) (rejectionSentence rejection)
    (context.operationText operation)
  { p with recorded := p.recorded ++ [.rejected rejection] }

def Progress.duplicate (p : Progress) (existing : EventId) : Progress :=
  { p with duplicates := p.duplicates + 1, recorded := p.recorded ++ [.duplicate existing] }

/-! ### The verdicts of the rows -/

def knownRecord (e : Event) (event : EventId) : KnownRecord where
  event
  account := e.account
  sourceOperationId := e.provenance.sourceOperationId
  idempotencyKey := e.idempotencyKey
  fingerprint := e.provenance.rawHash
  document := e.provenance.row.map RowLocator.document
  sheet := e.provenance.row.bind RowLocator.sheet
  row := e.provenance.row.map RowLocator.row

def knownRecords (events : List Event) : List KnownRecord := events.map fun e => knownRecord e e.id

def structuralRejection (e : Event) (field : String) : Option Rejection :=
  match e.validateStructure with
  | .ok () => none
  | .error error => some ⟨field, "event shape matching its type", context.explain error⟩

def declared (e : Event) : Event := { e with provenance := { e.provenance with declaredBy := some request.principal.id } }

/-- A write that fails ends the synchronisation. -/
def answered : Except JournalError Appended → Synchronisation Appended
  | .ok answer => .done answer
  | .error error => fail (.journal error)

/-- `append_checked` of one event. -/
def appendChecked (e : Event) : Synchronisation Appended :=
  match structuralRejection context e "event" with
  | some rejection => fail (.invalid "event[0]" rejection.expected rejection.actual)
  | none => Program.ask (StoreCall.append broker.identityScope e) >>= answered

/-- What became of an event that was sent to the journal. A hint is kept only for one that was written. -/
def Progress.take (p : Progress) (e : Event) (hint : Option (EventId × DedupLevel)) : Appended → Progress
  | .inserted id =>
    { p with
      known := p.known ++ [knownRecord e id]
      recorded := p.recorded ++ [match hint with
        | some («of», level) => .possibleDuplicate id «of» level
        | none => .provisional id]
      possibleDuplicates := p.possibleDuplicates + hint.toList.length }
  | .duplicate existing => p.duplicate existing

def documentContext (operation : SubmittedOperation) : DocumentContext :=
  ⟨operation.account, none, none, none, broker.identityScope⟩

def normalizationContext : Operation.NormalizationContext :=
  ⟨request.principal.owner, broker.channel.source, broker.channel.parserVersion⟩

/-- What an operation becomes: a rejection, or the event that is recorded of it. -/
def candidate (i : Nat) (operation : SubmittedOperation) : Operation.Built Event := do
  let e ← Operation.normalize ⟨draws.event i, draws.transfer i, context.fingerprint⟩ operation
    (normalizationContext broker request)
  match structuralRejection context (declared request e) "operation" with
  | some rejection => .error (.error rejection)
  | none => return declared request e

def decision (operation : SubmittedOperation) (e : Event) (known : List KnownRecord) : DedupDecision :=
  Dedup.assess (Dedup.chooseKey context.fingerprint operation (documentContext broker operation)) e.provenance.rawHash
    (documentContext broker operation) known

def takeEvent (e : Event) (hint : Option (EventId × DedupLevel)) (p : Progress) : Synchronisation Progress := do
  let answer ← appendChecked context broker e
  return p.take e hint answer

def takeOperation (i : Nat) (operation : SubmittedOperation) (p : Progress) : Synchronisation Progress :=
  match candidate context broker request draws i operation with
  | .error .panic => .stop .panic
  | .error (.error rejection) => .done (p.reject context broker request draws operation rejection)
  | .ok e =>
    match decision context broker operation e p.known with
    | .duplicate _ existing => .done (p.duplicate existing)
    | .possibleDuplicate «of» level => takeEvent context broker e (some («of», level)) p
    | .fresh => takeEvent context broker e none p

def takeOperations (operations : List SubmittedOperation) (p : Progress) : Synchronisation Progress :=
  Program.foldIdx (takeOperation context broker request draws) 0 operations p

/-! ### What the synchronisation states itself -/

/-- A statement is known by its key. -/
def takeStatement (e : Event) (p : Progress) : Synchronisation Progress :=
  match p.known.find? fun record => record.idempotencyKey = e.idempotencyKey with
  | some record => .done (p.duplicate record.event)
  | none => takeEvent context broker (declared request e) none p

/-- `Debug` of an account and of a source. -/
def accountDebug (account : AccountId) : String := "AccountId(" ++ account.text ++ ")"
def sourceDebug (source : SourceId) : String := "SourceId(" ++ source.text ++ ")"
def parserDebug (version : String) : String := "ParserVersion(" ++ context.quoted version ++ ")"

def dimensionDebug : Dimension → String
  | .cash => "Cash"
  | .positions => "Positions"
  | .taxBasis => "TaxBasis"
  | .income => "Income"

/-- The key of a gap counts the rows and does not name them. -/
def coverageGapIdentity (rows : List RefusedRow) : String :=
  "sync-coverage-gap/" ++ accountDebug request.account ++ "/" ++ request.from.text ++ "/" ++ request.to.text ++ "/" ++
    sourceDebug broker.channel.source ++ "/" ++ parserDebug context broker.channel.parserVersion ++ "/\x7b" ++
    ", ".intercalate ((dimensionList (rowDimensions rows)).map dimensionDebug) ++ "\x7d/" ++ toString rows.length

def coverageGapEvent (id : EventId) (rows : List RefusedRow) : Option Event :=
  gapEvent id ⟨request.principal.owner, request.account, ⟨request.from, request.to⟩⟩ rows
    { source := broker.channel.source
      rawHash := context.digest (coverageGapIdentity context broker request rows)
      parserVersion := broker.channel.parserVersion }
    (coverageGapIdentity context broker request rows)

def assertionIdentity (claim : ControlClaim) : String :=
  "sync-assertion/" ++ accountDebug request.account ++ "/" ++ request.from.text ++ "/" ++ request.to.text ++ "/" ++
    sourceDebug broker.channel.source ++ "/" ++ context.claimText claim

/-- The document hash leaves the parser out, and the key has it: a corrected parse is recorded, and is not independent. -/
def assertionEvent (id : EventId) (claim : ControlClaim) (order : Nat) : Event where
  id
  owner := request.principal.owner
  account := request.account
  kind := .controlAssertion ⟨request.from, request.to⟩ claim
  dates := .forCash request.to
  order := ⟨request.to, none, order⟩
  legs := []
  provenance := {
    source := broker.channel.source
    rawHash := context.digest (assertionIdentity context broker request claim)
    parserVersion := broker.channel.parserVersion }
  relation := .none
  confidence := .known
  idempotencyKey := some (assertionIdentity context broker request claim ++ "/" ++
    parserDebug context broker.channel.parserVersion)

/-- An assertion that is recorded is counted. The identifiers of the assertions are drawn after the first `written`. -/
def takeClaim (written i : Nat) (claim : ControlClaim) (p : Progress) : Synchronisation Progress := do
  let q ← takeStatement context broker request
    (assertionEvent context broker request (draws.event (written + i)) claim (i + 1)) p
  match q.recorded.getLast? with
  | some (.provisional _) => return { q with assertions := q.assertions + 1 }
  | _ => return q

def takeClaims (written : Nat) (claims : List ControlClaim) (p : Progress) : Synchronisation Progress :=
  Program.foldIdx (takeClaim context broker request draws written) 0 claims p

def takeGap (i : Nat) (p : Progress) : Synchronisation Progress :=
  match coverageGapEvent context broker request (draws.event i) p.refusals with
  | none => .done p
  | some gap => takeStatement context broker request gap p

/-! ### The questions -/

def upsertRefusals : List SyncRefusalRecord → Synchronisation Unit
  | [] => .done ()
  | record :: records => do
    let () ← Program.ask (StoreCall.upsertSyncRefusal record)
    upsertRefusals records

def refusalFilter : SyncRefusalFilter :=
  ⟨request.principal.owner, request.account, broker.channel.source.text, request.from.text, request.to.text⟩

/-- Only a synchronisation that read everything settles what it no longer refuses. -/
def keepRefusalQuestions (records : List SyncRefusalRecord) (settle : Bool) : Synchronisation Unit := do
  upsertRefusals records
  if settle then
    Program.ask (StoreCall.settleSyncRefusalsBesides (refusalFilter broker request) (records.map SyncRefusalRecord.rowKey))
  else .done ()

/-! ### The synchronisation -/

/-- The number to ask the broker for, and the one that is to be bound: without a binding it is the only one that the access
    sees. -/
def brokerAccount : Synchronisation (String × Option String) := do
  let bound : Option String ← Program.ask
    (StoreCall.brokerAccountBinding request.principal.owner request.account request.brokerCode)
  match bound with
  | some number => return (number, none)
  | none =>
    let candidates ← fetched broker.accountNumbers
    match candidates with
    | [] => fail (.brokerAccountUnseen request.brokerCode)
    | [one] => return (one, some one)
    | several => fail (.brokerAccountAmbiguous request.brokerCode several)

/-- A trade outside the days that were asked for. The portfolio is then not asked for. -/
def outOfInterval (operation : SubmittedOperation) : Bool :=
  operation.dates.trade.any fun trade => trade < request.from || request.to < trade

def portfolioOf (number : String) (parsed : ParsedOperations) : Except BrokerError (Option PortfolioSnapshot) :=
  if parsed.accepted.any (outOfInterval request) then .ok none else (broker.portfolio number).map some

/-- The first write. -/
def bindAccount : Option String → Synchronisation Bool
  | none => .done false
  | some number => do
    let bound : Except BindingError Unit ← Program.ask
      (StoreCall.recordBrokerAccountBinding ⟨request.principal.owner, request.account, request.brokerCode, number⟩)
    match bound with
    | .ok () => return true
    | .error e => fail (.binding e)

/-- The answers of the broker, and the journal of before. -/
structure Fetched where
  parsed : ParsedOperations
  bounded : List Event
  snapshot : Option PortfolioSnapshot
  bindingRecorded : Bool

/-- Both answers are there before the first write. -/
def fetch : Synchronisation Fetched := do
  let (number, pending) ← brokerAccount broker request
  let parsed ← fetched (broker.operations number)
  let bounded : List Event ← Program.ask (StoreCall.loadEventsThrough request.principal.owner request.to)
  let snapshot ← fetched (portfolioOf broker request number parsed)
  let bindingRecorded ← bindAccount request pending
  return ⟨parsed, bounded, snapshot, bindingRecorded⟩

def quarantinedRows (parsed : ParsedOperations) (snapshot : Option PortfolioSnapshot) : List Quarantined :=
  parsed.quarantined ++ (snapshot.map PortfolioSnapshot.refused).getD []

def Progress.quarantine (p : Progress) (row : Quarantined) : Progress :=
  p.setAside broker request draws ⟨⟨broker.channel.source, fingerprintOf context row.raw⟩, row.dimensions⟩ row.reason row.raw

def started (bounded : List Event) (rows : List Quarantined) : Progress :=
  rows.foldl (Progress.quarantine context broker request draws) { known := knownRecords bounded }

/-- The quarantined rows are reported after the operations. -/
def Progress.report (p : Progress) (rows : List Quarantined) : Progress :=
  { p with recorded := p.recorded ++ rows.map fun row => .quarantined row.reason }

/-- The day of the portfolio, when that is not the one that was asked about. -/
def assertionsWithheld (snapshot : PortfolioSnapshot) : Option Date :=
  match snapshot.asOf with
  | .requested => none
  | .current =>
    let asOf := snapshot.observedOn.getD request.today
    if asOf = request.to then none else some asOf

def setAside (recorded : List Verdict) : Nat :=
  recorded.countP fun
    | .rejected _ | .quarantined _ => true
    | _ => false

def outcome (p : Progress) (withheld : Option Date) (bindingRecorded : Bool) : SyncOutcome :=
  ⟨p.recorded, p.duplicates, p.possibleDuplicates, setAside p.recorded, p.assertions, withheld, bindingRecorded⟩

/-- The claims of the portfolio, as far as it was asked for and is of the right day. -/
def takePortfolio (written : Nat) (snapshot : Option PortfolioSnapshot) (bindingRecorded : Bool) (p : Progress) :
    Synchronisation SyncOutcome :=
  match snapshot with
  | none => do
    keepRefusalQuestions broker request p.refusalRecords false
    return outcome p none bindingRecorded
  | some snapshot =>
    match assertionsWithheld request snapshot with
    | some asOf => do
      keepRefusalQuestions broker request p.refusalRecords false
      return outcome p (some asOf) bindingRecorded
    | none => do
      let p ← takeClaims context broker request draws written snapshot.claims p
      keepRefusalQuestions broker request p.refusalRecords true
      return outcome p none bindingRecorded

/-- `u32::MAX`. -/
def rowsMax : Nat := 4294967295

def takeStatements (parsed : ParsedOperations) (snapshot : Option PortfolioSnapshot) (bindingRecorded : Bool) (p : Progress) :
    Synchronisation SyncOutcome :=
  let p := p.report (quarantinedRows parsed snapshot)
  if rowsMax < p.refusals.length then
    fail (.invalid "refused" "at most u32::MAX rows" (toString p.refusals.length))
  else do
    let p ← takeGap context broker request draws parsed.accepted.length p
    takePortfolio context broker request draws (parsed.accepted.length + 1) snapshot bindingRecorded p

/-- The synchronisation of a claimed account. -/
def syncClaimed : Synchronisation SyncOutcome := do
  let got ← fetch broker request
  let p ← takeOperations context broker request draws got.parsed.accepted
    (started context broker request draws got.bounded (quarantinedRows got.parsed got.snapshot))
  takeStatements context broker request draws got.parsed got.snapshot got.bindingRecorded p

def syncBroker : Synchronisation SyncOutcome :=
  if request.scope.maySubmit then do
    let claimed : Bool ← Program.ask (StoreCall.claim request.principal.owner request.account)
    if claimed then
      (syncClaimed context broker request draws).releasing (StoreCall.release request.principal.owner request.account)
    else fail (.conflict ("a sync of this account is already running: account " ++ request.account.text))
  else fail (.invalid "scope" "permission to synchronise the broker" request.scope.code)

end

end Sync
end Iaam
