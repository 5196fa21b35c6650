import Iaam.Batch
import Iaam.Ingest.Intake
import Iaam.Ingest.Mirror
import Iaam.Store.ImportSession

/-! The reading of an import session (`scenarios/import_session.rs`): what each held row settles as against the directory and
the rules of the owner, and which of the rows are two sights of one movement. The action queue pairs the same rows from the
observations alone. -/

namespace Iaam
namespace SessionReading
open Outcome

/-! ### What a session holds -/

structure SessionView where
  id : ImportSessionId
  state : ImportSession.SessionState
  source : Option SourceId
  «import» : Option ImportId
  deriving DecidableEq, Repr

structure ImportObservationView where
  row : Nat
  payload : String
  answer : Option String
  answerRule : Option (ClassificationRuleId × Nat)
  deriving DecidableEq, Repr

structure ImportQuestionView where
  id : String
  row : Nat
  prompt : String
  answeredAt : Option String
  answer : Option String
  deriving DecidableEq, Repr

def ImportQuestionView.isOpen (question : ImportQuestionView) : Bool := question.answeredAt.isNone

structure SessionContents where
  session : SessionView
  observations : List ImportObservationView
  questions : List ImportQuestionView
  controlFigures : List Batch.ControlSection
  deriving DecidableEq, Repr

/-- What the reading takes from elsewhere: the texts, the JSON of a stored row and of an answer, and the identifiers that are
    digests of what they name. -/
structure Environment where
  words : Words
  parseIntake : String → Except String Intake
  parseAnswer : String → Except String Answer
  declaredSource : OwnerId → AccountId → String → SourceId
  declaredImport : OwnerId → AccountId → String → String → ImportId
  pairIdentity : ImportSessionId → Nat → Nat → Nat

/-! ### The directory and the rules -/

structure AccountAliasView where
  value : String
  validFrom : Date
  validTo : Option Date
  deriving DecidableEq, Repr

structure AccountDetailView where
  id : AccountId
  title : String
  providerAccountId : Option String
  aliases : List AccountAliasView
  deriving DecidableEq, Repr

def entryFor (account : AccountDetailView) : AccountEntry where
  id := account.id
  printed := (account.providerAccountId.toList.map fun value => (value, none)) ++
    account.aliases.map fun «alias» => («alias».value, some ⟨«alias».validFrom, «alias».validTo⟩)
  title := account.title

/-- What the owner said of the accounts that money moves between. -/
structure AccountTransferStatementView where
  account : AccountId
  partners : List AccountId
  deriving DecidableEq, Repr

structure Resolver where
  accounts : List AccountDetailView
  statements : List AccountTransferStatementView
  rules : List ClassificationRule
  deriving DecidableEq, Repr

namespace Resolver

/-- The account that a counterparty names, when it names one and no other. -/
def resolveCounterparty (words : Words) (resolver : Resolver) (name : String) (on : Option Date) : Option AccountId :=
  match candidates words (resolver.accounts.map entryFor) name on with
  | [only] => some only
  | _ => none

/-- Whether the owner's words say that money does not move between the two. -/
def denies (resolver : Resolver) (account partner : AccountId) : Bool :=
  if account = partner then false
  else
    let names (near far : AccountId) : Option Bool :=
      (resolver.statements.find? fun statement => statement.account = near).map fun statement => far ∈ statement.partners
    match names account partner, names partner account with
    | some true, _ | _, some true | none, none => false
    | some false, _ | _, some false => true

end Resolver

/-! ### What a row settles as -/

/-- Why a row correctly produces nothing. -/
inductive NoFactReason where
  | oneAccountTwoInstruments (account : AccountId)
  | secondLegOfOneMovement (records : Nat)
  deriving DecidableEq, Repr

/-- On whose word a row is settled. -/
inductive FactBasis where
  | concluded
  | directory
  | sourceAsserted
  | rule (rule : ClassificationRuleId) (version : Nat)
  | answered
  | answeredMintingRule (rule : ClassificationRuleId) (version : Nat)
  deriving DecidableEq, Repr

namespace FactBasis

def of : Basis → FactBasis
  | .derived => directory
  | .asserted => sourceAsserted
  | .rule id version => rule id version

def ruleSettlement : FactBasis → RuleSettlement
  | rule id version => .rule id version
  | answeredMintingRule id version => .answeredMintingRule id version
  | concluded | directory | sourceAsserted | answered => .noRule

end FactBasis

inductive Assessment where
  | settled (classification : Classification) (movement : Option Classification.Movement) (basis : Basis)
  | noFact (reason : NoFactReason)
  | ambiguous (question : Question)
  deriving DecidableEq, Repr

inductive RowResolution where
  | fact (operation : SubmittedOperation) (basis : FactBasis)
  | noFact (reason : NoFactReason)
  deriving DecidableEq

def movementOf (classification : Classification) (row : ObservedRow) : Option Classification.Movement :=
  row.movement.or classification.impliedMovement

/-- The statement of the owner can take a resolution back, and do nothing else. A row whose far side is its own account
    settles without a fact, before the classifier is asked. -/
def assess (words : Words) (resolver : Resolver) (row : ObservedRow) : Assessment :=
  let resolved := (row.counterpartyName.bind fun name =>
    resolver.resolveCounterparty words name row.dates.effectiveDate).filter fun resolved =>
      !resolver.denies row.account resolved
  if resolved = some row.account then .noFact (.oneAccountTwoInstruments row.account)
  else
    match Classification.classify words.toLowercase (row.subject resolved) resolver.rules with
    | .ambiguous question => .ambiguous question
    | .resolved classification basis =>
      match classification, movementOf classification row with
      | classification, some movement => .settled classification (some movement) basis
      | .ownAccountMovement, none => .settled .ownAccountMovement none basis
      | _, none => .ambiguous (.unresolvedDirection row.account row.sourceKind row.counterpartyName)

/-- What a stored row settles as: by the conclusion of its caller, by the answer of the owner, or by the assessment. -/
def resolutionOf (env : Environment) (resolver : Resolver) (observation : ImportObservationView) :
    Except Rejection RowResolution :=
  match env.parseIntake observation.payload with
  | .error text => .error ⟨"observation", "a row this build can read", text⟩
  | .ok (.concluded operation) => .ok (.fact operation .concluded)
  | .ok (.observed row _) =>
    match observation.answer with
    | some answer =>
      match env.parseAnswer answer with
      | .error text => .error ⟨"answer", "an answer this build can read", text⟩
      | .ok answer => do
        let operation ← row.resolveWith answer
        return .fact operation (match observation.answerRule with
          | some (rule, version) => .answeredMintingRule rule version
          | none => .answered)
    | none =>
      match assess env.words resolver row with
      | .settled classification movement basis => do
        let operation ← row.resolve classification movement
        return .fact operation (.of basis)
      | .noFact reason => .ok (.noFact reason)
      | .ambiguous _ => .error ⟨"row", "a row whose classification is settled", "unanswered"⟩

/-! ### The rows as they were read -/

/-- Where the facts of a row come from: the source its duplicates are looked for in, and the import. -/
structure RowOrigin where
  source : SourceId
  «import» : Option ImportId
  deriving DecidableEq, Repr

def sessionChannel : String := "session"

/-- A session without a declared source derives one for each account. -/
def sessionOrigin (env : Environment) (owner : OwnerId) (session : SessionView) (account : AccountId) : RowOrigin :=
  match session.source with
  | some source => ⟨source, session.import⟩
  | none => ⟨env.declaredSource owner account sessionChannel,
      some (env.declaredImport owner account sessionChannel session.id.text)⟩

/-- `PARSER_VERSION` of a submitted operation. -/
def submittedParserVersion : String := "ingest/manual/1"

/-- A row as it was read. `candidate` is the event the row would become, or why it cannot become one; a row that is settled
    without a fact has none. -/
structure ReadRow where
  row : Nat
  intake : Option Intake
  candidate : Option (Except Rejection Event)
  settled : Option NoFactReason
  basis : Option FactBasis
  deriving DecidableEq

/-- What a reading settled a row as. -/
inductive QuestionSettlement where
  | fact (basis : FactBasis)
  | noFact (reason : NoFactReason)
  deriving DecidableEq, Repr

namespace ReadRow

def settlement (read : ReadRow) : Option QuestionSettlement :=
  match read.settled, read.candidate, read.basis with
  | some reason, _, _ => some (.noFact reason)
  | none, some (.ok _), some basis => some (.fact basis)
  | none, _, _ => none

def account (read : ReadRow) : Option AccountId := read.intake.map Intake.account

def statedDay (read : ReadRow) : Option Date := read.intake.bind Intake.statedDay

/-- The event of the row, where it has one. -/
def event (read : ReadRow) : Option Event := read.candidate.bind Except.toOption

end ReadRow

inductive PlanError where
  | unsettledRow (row : Nat)
  | noOutcome (row : Nat)
  | batchTotal (e : MoneyError)
  deriving DecidableEq, Repr

/-- The outcome of a step that may reject the row. A panic is not an outcome of the row. -/
def attempt {α : Type} : Operation.Built α → Result PlanError (Except Rejection α)
  | .ok value => .ok (.ok value)
  | .error (.error rejection) => .ok (.error rejection)
  | .error .panic => .error .panic

/-- The event of an operation, stamped with its import and with what filed the row. -/
def candidateOf (env : Environment) (fresh : Operation.Fresh) (owner : OwnerId) (session : SessionView)
    (reader : String) (basis : FactBasis) (operation : SubmittedOperation) : Operation.Built Event := do
  let origin := sessionOrigin env owner session operation.account
  let event ← Operation.normalize fresh operation ⟨owner, origin.source, reader⟩
  return { event with provenance := { event.provenance with
    «import» := origin.import.or event.provenance.import
    ruleSettlement := some basis.ruleSettlement } }

/-- Reads one stored row. The identifiers that are drawn for a row are passed in. -/
def readRow (env : Environment) (fresh : Nat → Operation.Fresh) (owner : OwnerId) (session : SessionView)
    (resolver : Resolver) (observation : ImportObservationView) : Result PlanError ReadRow :=
  let intake := (env.parseIntake observation.payload).toOption
  match resolutionOf env resolver observation with
  | .error rejection => .ok ⟨observation.row, intake, some (.error rejection), none, none⟩
  | .ok (.noFact reason) => .ok ⟨observation.row, intake, none, some reason, none⟩
  | .ok (.fact operation basis) => do
    let reader := (intake.bind Intake.reader).getD submittedParserVersion
    let candidate ← attempt (candidateOf env (fresh observation.row) owner session reader basis operation)
    return ⟨observation.row, intake, some candidate, none, some basis⟩

/-! ### The rows that are one movement -/

/-- The magnitude of an amount that moves something. -/
def magnitude (amount : PostedMinor) : Option PostedMinor :=
  (PostedMinor.ofInt |amount.raw|).filter fun value => 0 < value.raw

/-- A row that still waits. Its direction is the word of the source, and the sign where there is no word. -/
def unansweredSide (row : Nat) (observed : ObservedRow) : Option MirrorSide := do
  let direction ← observed.movement.or
    (if 0 < observed.amountMinor.raw then some .in else if observed.amountMinor.raw < 0 then some .out else none)
  let amountMinor ← magnitude observed.amountMinor
  let date ← observed.dates.effectiveDate
  return ⟨row, observed.account, direction, amountMinor, observed.currency, date, none⟩

/-- A row that was read into a transfer on its own account. -/
def transferSide (row : Nat) (account : AccountId) (date : Date) (event : Event) : Option MirrorSide :=
  match event.kind with
  | .cashTransfer _ source target amount => do
    let (direction, farSide) ←
      if source = account then some (.out, target) else if target = account then some (.in, source) else none
    let amountMinor ← magnitude amount.amount
    return ⟨row, account, direction, amountMinor, amount.currency, date, some farSide⟩
  | _ => none

/-- A row as the mirror test reads it: a transfer, or a row whose question is open. -/
def mirrorSide (read : ReadRow) (questioned : Bool) : Option MirrorSide := do
  let account ← read.account
  let date ← read.statedDay
  match read.event, questioned, read.intake with
  | some event, _, _ => transferSide read.row account date event
  | none, true, some (.observed row _) => unansweredSide read.row row
  | none, _, _ => none

/-- What the rows of a session say about each other. -/
structure MirroredRows where
  settled : Tree.Map Nat Nat
  «open» : List (Nat × Nat × Nat)

/-- The questions that are the owner's, and that the reading settled nothing for. -/
def openRows (rows : List ReadRow) (questions : List ImportQuestionView) : List Nat :=
  ((questions.filter ImportQuestionView.isOpen).map ImportQuestionView.row).filter fun row =>
    rows.any fun read => read.row = row && read.settlement.isNone

def sidesOf (rows : List ReadRow) (questions : List ImportQuestionView) : List MirrorSide :=
  rows.filterMap fun read => mirrorSide read (read.row ∈ openRows rows questions)

/-- The row of the sending account keeps its fact, when both have one. -/
def addPair (env : Environment) (session : ImportSessionId) («open» : List Nat) (paired : MirroredRows) (mirror : Mirror) :
    MirroredRows :=
  if mirror.outgoing ∉ «open» then { paired with settled := paired.settled.insert mirror.incoming mirror.outgoing }
  else if mirror.incoming ∉ «open» then { paired with settled := paired.settled.insert mirror.outgoing mirror.incoming }
  else { paired with
    «open» := paired.open ++ [(mirror.outgoing, mirror.incoming, env.pairIdentity session mirror.outgoing mirror.incoming)] }

def mirroredRows (env : Environment) (session : ImportSessionId) (rows : List ReadRow)
    (questions : List ImportQuestionView) : MirroredRows :=
  (Mirror.mirrored (sidesOf rows questions)).pairs.foldl (addPair env session (openRows rows questions)) ⟨∅, []⟩

/-- A row whose movement another row records, records nothing. -/
def settleMirrored (mirrors : MirroredRows) (read : ReadRow) : ReadRow :=
  match mirrors.settled[read.row]? with
  | none => read
  | some records =>
    { read with candidate := none, settled := some (.secondLegOfOneMovement records), basis := none }

structure Reading where
  rows : List ReadRow
  mirrors : MirroredRows

/-- One reading of a whole session. -/
def read (env : Environment) (fresh : Nat → Operation.Fresh) (owner : OwnerId) (resolver : Resolver)
    (contents : SessionContents) : Result PlanError Reading := do
  let rows ← contents.observations.mapM (readRow env fresh owner contents.session resolver)
  let mirrors := mirroredRows env contents.session.id rows contents.questions
  return ⟨rows.map (settleMirrored mirrors), mirrors⟩

/-- Whether a question is still the owner's to answer. -/
def awaitsAnswer (rows : List ReadRow) (question : ImportQuestionView) : Bool :=
  question.isOpen && !rows.any fun read => read.row = question.row && read.settlement.isSome

end SessionReading
end Iaam
