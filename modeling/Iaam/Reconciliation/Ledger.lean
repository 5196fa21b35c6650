import Iaam.Event.Kind

/-! The reconciliation ledger (`reconciliation/mod.rs`, `reconciliation/evidence.rs`, with the outcomes of
`reconciliation/check.rs`): the status of an account over an interval, one for each dimension. -/

namespace Iaam

namespace Dimension

def index : Dimension → Nat
  | cash => 0 | positions => 1 | taxBasis => 2 | income => 3

instance : LinearOrder Dimension :=
  LinearOrder.lift' index fun a b h => by cases a <;> cases b <;> first | rfl | simp [index] at h

def all : List Dimension := [cash, positions, taxBasis, income]

theorem mem_all (d : Dimension) : d ∈ all := by cases d <;> decide

end Dimension

/-! ### Levels and statuses -/

inductive ConfidenceLevel where
  | provisional | acceptedInternal | acceptedIndependent
  deriving DecidableEq, Repr

/-- The status of a dimension. The order of the variants is the strength: a discrepancy is the lowest. -/
inductive DimensionStatus where
  | discrepant | provisional | acceptedInternal | acceptedIndependent
  deriving DecidableEq, Repr

namespace DimensionStatus

def index : DimensionStatus → Nat
  | discrepant => 0 | provisional => 1 | acceptedInternal => 2 | acceptedIndependent => 3

instance : LinearOrder DimensionStatus :=
  LinearOrder.lift' index fun a b h => by cases a <;> cases b <;> first | rfl | simp [index] at h

def fromLevel : ConfidenceLevel → DimensionStatus
  | .provisional => provisional
  | .acceptedInternal => acceptedInternal
  | .acceptedIndependent => acceptedIndependent

end DimensionStatus

/-! ### Outcomes of checked claims -/

inductive ClaimValue where
  | money (amount : PostedMinor) (currency : CurrencyCode)
  | quantity (q : Quantity)
  deriving DecidableEq, Repr

inductive DiscrepancyReason where
  | openingExcludedByDayBoundary
  deriving DecidableEq, Repr

structure Discrepancy where
  field : String
  claimed : ClaimValue
  observed : ClaimValue
  delta : ClaimValue
  reason : Option DiscrepancyReason
  deriving DecidableEq, Repr

inductive NotComparable where
  | noJournalCoverage | taxFactsNotRecorded | openingNotAsserted
  deriving DecidableEq, Repr

inductive ReconciliationException where
  | unsupportedRepoEncumbrance | unsupportedFinancingPresent
  deriving DecidableEq, Repr

inductive ClaimOutcome where
  | matched
  | discrepant (d : Discrepancy)
  | notComparable (reason : NotComparable)
  | excepted (exception : ReconciliationException)
  deriving DecidableEq, Repr

def ClaimOutcome.isDiscrepant : ClaimOutcome → Bool
  | discrepant _ => true
  | matched | notComparable _ | excepted _ => false

structure FoldSpan where
  events : Nat
  first : Option Date
  last : Option Date
  deriving DecidableEq, Repr

inductive ObservedStart where
  | asserted | unasserted | noRecordedMovement | notABalance
  deriving DecidableEq, Repr

inductive Compared where
  | level
  | changeSince (date : Date)
  deriving DecidableEq, Repr

structure ObservationBasis where
  folded : FoldSpan
  start : ObservedStart
  compared : Compared
  deriving DecidableEq, Repr

structure ClaimCheck where
  claim : ControlClaim
  outcome : ClaimOutcome
  basis : ObservationBasis
  deriving DecidableEq, Repr

/-! ### Evidence -/

structure SourceChannel where
  source : SourceId
  parserVersion : String
  document : Option String
  deriving DecidableEq, Repr

/-- Neither the parsing code nor the document is shared. -/
def SourceChannel.isIndependentOf (l r : SourceChannel) : Bool :=
  l.parserVersion ≠ r.parserVersion && l.document ≠ r.document

inductive Ground where
  | openingMatchesPriorClosing
  | continuityBetweenStatements
  | brokerApiAgreesWithStatement
  | depositaryReportConfirms
  | separateSectionsAgree
  | payoutConfirmsSchedule
  | corporateActionMatchesIssueTerms
  | taxAgentCertificate
  | ownerStatedBalance
  deriving DecidableEq, Repr

namespace Ground

def ceiling : Ground → ConfidenceLevel
  | openingMatchesPriorClosing | continuityBetweenStatements | separateSectionsAgree | ownerStatedBalance =>
    .acceptedInternal
  | brokerApiAgreesWithStatement | depositaryReportConfirms | payoutConfirmsSchedule
  | corporateActionMatchesIssueTerms | taxAgentCertificate => .acceptedIndependent

def dimensions : Ground → Finset Dimension
  | openingMatchesPriorClosing | continuityBetweenStatements | brokerApiAgreesWithStatement
  | ownerStatedBalance => {.cash, .positions}
  | depositaryReportConfirms | corporateActionMatchesIssueTerms => {.positions}
  | separateSectionsAgree => {.cash, .positions, .income, .taxBasis}
  | payoutConfirmsSchedule => {.income}
  | taxAgentCertificate => {.income, .taxBasis}

end Ground

/-- A successful confirmation: it confirms something, and nothing its ground does not reach. -/
structure Evidence where
  ground : Ground
  confirming : SourceChannel
  confirmed : SourceChannel
  dimensions : Finset Dimension
  reached : dimensions ⊆ ground.dimensions
  nonempty : dimensions ≠ ∅
  deriving DecidableEq

namespace Evidence

def fromMatch (ground : Ground) (confirming confirmed : SourceChannel) (matched : Finset Dimension) :
    Option Evidence :=
  if h : ground.dimensions ∩ matched ≠ ∅ then
    some ⟨ground, confirming, confirmed, ground.dimensions ∩ matched, Finset.inter_subset_left, h⟩
  else none

/-- The ceiling of the ground, lowered when the channels are not independent. -/
def level (e : Evidence) : ConfidenceLevel :=
  if e.ground.ceiling = .acceptedIndependent ∧ !e.confirming.isIndependentOf e.confirmed then .acceptedInternal
  else e.ground.ceiling

end Evidence

/-- An item of evidence about an account over an interval. -/
structure EvidenceItem where
  account : AccountId
  period : AssertionPeriod
  evidence : Evidence
  deriving DecidableEq

/-! ### Statuses of account and interval -/

structure Taint where
  account : AccountId
  period : AssertionPeriod
  source : SourceId
  parserVersion : String
  dimensions : Finset Dimension
  refused : Nat
  rows : List RefusedRow
  deriving DecidableEq

abbrev Dimensions := Tree.Map Dimension DimensionStatus

/-- What nothing was said of is provisional. -/
def Dimensions.status (m : Dimensions) (d : Dimension) : DimensionStatus := m[d]?.getD .provisional

structure ReconciliationStatus where
  account : AccountId
  period : AssertionPeriod
  dimensions : Dimensions
  evidence : List Evidence
  outcomes : List ClaimCheck
  taints : List Taint

structure StatementGroup where
  account : AccountId
  period : AssertionPeriod
  channel : SourceChannel
  claims : List ControlClaim
  deriving DecidableEq

/-- Raises each dimension of a set to a level; a higher status stays. -/
def raise (m : Dimensions) (of : Finset Dimension) (level : DimensionStatus) : Dimensions :=
  (Dimension.all.filter (· ∈ of)).foldl (fun m d => m.insert d (max (m.status d) level)) m

def buildStatus (group : StatementGroup) (outcomes : List ClaimCheck) (evidence : List EvidenceItem)
    (taints : List Taint) : ReconciliationStatus :=
  let own := evidence.filter fun item => item.account = group.account ∧ item.period = group.period
  let raised := own.foldl (fun m item =>
    raise m item.evidence.dimensions (.fromLevel item.evidence.level)) (∅ : Dimensions)
  -- A discrepancy is applied after the raises.
  let dimensions := outcomes.foldl (fun (m : Dimensions) check =>
    if check.outcome.isDiscrepant then m.insert check.claim.dimension .discrepant else m) raised
  ⟨group.account, group.period, dimensions, own.map EvidenceItem.evidence, outcomes, taints⟩

/-- A discrepancy absorbs from either side; otherwise the stronger status stays. -/
def mergeDimension (m : Dimensions) (d : Dimension) (value : DimensionStatus) : Dimensions :=
  let slot := m.status d
  m.insert d (if value = .discrepant ∨ slot = .discrepant then .discrepant else max slot value)

def mergeInto (existing status : ReconciliationStatus) : ReconciliationStatus :=
  { existing with
    dimensions := status.dimensions.toList.foldl (fun m (d, value) => mergeDimension m d value) existing.dimensions
    evidence := existing.evidence ++ status.evidence
    outcomes := existing.outcomes ++ status.outcomes
    taints := status.taints.foldl (fun ts t => if t ∈ ts then ts else ts ++ [t]) existing.taints }

/-- Changes the first status of an account and interval, or adds one behind the others. -/
def updateStatus (account : AccountId) (period : AssertionPeriod) (change : ReconciliationStatus → ReconciliationStatus)
    (fresh : ReconciliationStatus) : List ReconciliationStatus → List ReconciliationStatus
  | [] => [fresh]
  | status :: rest =>
    if status.account = account ∧ status.period = period then change status :: rest
    else status :: updateStatus account period change fresh rest

def mergeStatus (into : List ReconciliationStatus) (status : ReconciliationStatus) : List ReconciliationStatus :=
  updateStatus status.account status.period (mergeInto · status) status into

structure ReconciliationLedger where
  statuses : List ReconciliationStatus
  gaps : List Taint

namespace ReconciliationLedger

/-- The statuses of the checked groups, each with the taints correlated with it: the last step of
    `build_with`. -/
def ofChecked (checked : List (StatementGroup × List ClaimCheck × List Taint)) (evidence : List EvidenceItem)
    (gaps : List Taint) : ReconciliationLedger where
  statuses := checked.foldl (fun into (group, outcomes, taints) =>
    mergeStatus into (buildStatus group outcomes evidence taints)) []
  gaps

/-- One item of evidence the journal cannot generate. -/
def addEvidence (l : ReconciliationLedger) (item : EvidenceItem) : ReconciliationLedger :=
  let level := DimensionStatus.fromLevel item.evidence.level
  let dimensions := item.evidence.dimensions
  { l with
    statuses := updateStatus item.account item.period
      (fun status =>
        { status with
          dimensions := raise status.dimensions dimensions level
          evidence := status.evidence ++ [item.evidence] })
      ⟨item.account, item.period, raise ∅ dimensions level, [item.evidence], [], []⟩ l.statuses }

def withExternalEvidence (l : ReconciliationLedger) (items : List EvidenceItem) : ReconciliationLedger :=
  items.foldl addEvidence l

/-- The status of a dimension for an account over an interval. -/
def statusOver (l : ReconciliationLedger) (account : AccountId) (period : AssertionPeriod) (d : Dimension) :
    DimensionStatus :=
  match l.statuses.find? fun status => status.account = account ∧ status.period = period with
  | some status => status.dimensions.status d
  | none => .provisional

/-- The worst status among the intervals that cover a date. -/
def statusFor (l : ReconciliationLedger) (account : AccountId) (date : Date) (d : Dimension) : DimensionStatus :=
  let covering := l.statuses.filter fun status => status.account = account ∧ status.period.contains date
  (covering.foldl (fun (worst : Option DimensionStatus) status =>
    let candidate := status.dimensions.status d
    some ((worst.map (min · candidate)).getD candidate)) none).getD .provisional

end ReconciliationLedger
end Iaam
