import Iaam.Reconciliation.Ledger
import Iaam.Returns

/-! What the returns report says of its data (`returns/mod.rs`): the material issues, the shares of the value by
confidence and the status.

The rules for bonds and the solver of the rate enter as functions of what the report hands them. -/

namespace Iaam
namespace Returns

/-! ### Issues -/

/-- Why a scheduled payment cannot be reconciled. -/
inductive UnverifiableReason where
  | acquisitionDateUnknown | ownershipUnknown | entitlementDateUnknown | incomeKindUnknown | paymentDateUnknown
  | historyStartsAfterSchedule | scheduleNotTrusted
  deriving DecidableEq, Repr

/-- The issues that the rules for bonds can raise. -/
inductive BondIssue where
  | offerWindowUnresolved (submission : OfferSubmissionId)
  | scheduledPostingNotReceived (account : AccountId) (instrument : InstrumentId) (date : Date) (kind : PostingKind)
  | scheduledPostingUnverifiable (account : AccountId) (instrument : InstrumentId) (date : Date) (kind : PostingKind)
    (reason : UnverifiableReason)
  | scheduledPostingsUnverifiable (account : AccountId) (instrument : InstrumentId) (kind : PostingKind)
    (reason : UnverifiableReason) (count : Nat) (firstDate lastDate : Date)
  | accruedInterestMismatch (instrument : InstrumentId) (computed : Dec) (computedCurrency : CurrencyCode)
    (observed : Dec) (observedCurrency : CurrencyCode) (quantity : Quantity) (date : Date)
  deriving DecidableEq, Repr

/-- That the journal starts late is a fact about the period. -/
def BondIssue.isDefect : BondIssue → Bool
  | scheduledPostingUnverifiable _ _ _ _ reason | scheduledPostingsUnverifiable _ _ _ reason _ _ _ =>
    reason ≠ .historyStartsAfterSchedule
  | offerWindowUnresolved _ | scheduledPostingNotReceived .. | accruedInterestMismatch .. => true

inductive MaterialIssue where
  | restoredWithoutBasis (account : AccountId)
  | amortisationAllocationUnknown (account : AccountId) (instrument : InstrumentId)
  | negativeCash (account : AccountId) (currency : CurrencyCode)
  | historyStartsAt (date : Date)
  | noIndependentSource (account : AccountId) (dimension : Dimension)
  | discrepancy (account : AccountId) (dimension : Dimension)
  | unsupportedFinancing (account : AccountId)
  | bond (issue : BondIssue)
  deriving DecidableEq, Repr

/-- Whether the issue makes the answer incomplete. -/
def MaterialIssue.isDefect : MaterialIssue → Bool
  | historyStartsAt _ | noIndependentSource .. => false
  | bond issue => issue.isDefect
  | restoredWithoutBasis _ | amortisationAllocationUnknown .. | negativeCash .. | discrepancy ..
  | unsupportedFinancing _ => true

/-! ### The request and the rules -/

/-- A request with the register of reconciliation and the accounts that carry outside financing. -/
structure ReportRequest extends ReturnsRequest where
  ledger : ReconciliationLedger
  financing : Tree.Set AccountId

/-- The rules for bonds and the solver. What they read of the state is what they are given. -/
structure ReportRules (Rate Metrics : Type) where
  accruedMismatch : List PositionValue → ReportRequest → List BondIssue
  unresolvedOffers : ReportRequest → List BondIssue
  judgePostings : ReportRequest → LotKey → InstrumentLots → Option IncomeEntry → Option Date → List BondIssue
  collapse : List BondIssue → List BondIssue
  rate : Computed FlowSeries → Computed Dec → ReportRequest → Rate
  metrics : ReportRequest → PositionAssessment → Option InstrumentLots → Option Metrics

/-! ### Coverage -/

structure EvaluatedPosition where
  account : AccountId
  instrument : InstrumentId
  quantity : Quantity
  price : SelectedPrice
  deriving DecidableEq, Repr

/-- Why a position has no value: no price, or one that does not make money. -/
inductive UncoveredBecause where
  | policy (reason : UncoveredReason)
  | notComputable (reason : NotComputable)
  deriving DecidableEq, Repr

structure PositionCoverage where
  evaluatedPositions : Nat
  totalPositions : Nat
  selected : List EvaluatedPosition
  uncovered : List (AccountId × InstrumentId × UncoveredBecause)
  legacyDerived : List (AccountId × InstrumentId × PriceQuality)
  deriving DecidableEq, Repr

def PositionCoverage.add (c : PositionCoverage) (position : PositionValue) : PositionCoverage :=
  let a := position.assessment
  match a.kind, position.value with
  | .selected price, .ok _ =>
    { c with
      evaluatedPositions := c.evaluatedPositions + 1
      selected := c.selected ++ [⟨a.account, a.instrument, a.quantity, price⟩] }
  | .legacyDerived quality, .ok _ =>
    { c with
      evaluatedPositions := c.evaluatedPositions + 1
      legacyDerived := c.legacyDerived ++ [(a.account, a.instrument, quality)] }
  | .selected _, .error reason | .legacyDerived _, .error reason =>
    { c with uncovered := c.uncovered ++ [(a.account, a.instrument, .notComputable reason)] }
  | .uncovered reason, _ => { c with uncovered := c.uncovered ++ [(a.account, a.instrument, .policy reason)] }

def positionCoverage (positions : List PositionValue) : PositionCoverage :=
  positions.foldl PositionCoverage.add ⟨0, positions.length, [], [], []⟩

/-- The value of the valued positions, by how it could be realised. -/
structure ExecutabilityShares where
  evaluatedPositionsValue : ℚ := 0
  executable : ℚ := 0
  indicativePreviousClose : ℚ := 0
  unknown : ℚ := 0
  deriving DecidableEq, Repr

namespace ExecutabilityShares

def add (e : ExecutabilityShares) (executability : SourceExecutability) (value : Dec) : ExecutabilityShares :=
  let e := { e with evaluatedPositionsValue := e.evaluatedPositionsValue + |value.val| }
  match executability with
  | .executable => { e with executable := e.executable + |value.val| }
  | .indicativePreviousClose => { e with indicativePreviousClose := e.indicativePreviousClose + |value.val| }
  | .unknown => { e with unknown := e.unknown + |value.val| }

def addPosition (e : ExecutabilityShares) (position : PositionValue) : ExecutabilityShares :=
  match position.assessment.kind, position.value with
  | .selected price, .ok value => e.add price.candidate.executability value
  | .legacyDerived _, .ok value => e.add .unknown value
  | _, _ => e

def finish (e : ExecutabilityShares) : ExecutabilityShares :=
  let total := e.evaluatedPositionsValue
  if total = 0 then { unknown := 1 } else ⟨total, e.executable / total, e.indicativePreviousClose / total, e.unknown / total⟩

end ExecutabilityShares

/-- The weights of the value by confidence. -/
structure Shares where
  independent : ℚ := 0
  internal : ℚ := 0
  provisional : ℚ := 0
  discrepant : ℚ := 0
  deriving DecidableEq, Repr

def Shares.add (s : Shares) (level : DimensionStatus) (weight : ℚ) : Shares :=
  match level with
  | .acceptedIndependent => { s with independent := s.independent + weight }
  | .acceptedInternal => { s with internal := s.internal + weight }
  | .provisional => { s with provisional := s.provisional + weight }
  | .discrepant => { s with discrepant := s.discrepant + weight }

/-- The parts of the whole. Nothing to weigh is nothing confirmed. -/
def Shares.finish (s : Shares) : Shares :=
  let total := s.independent + s.internal + s.provisional + s.discrepant
  if total = 0 then { provisional := 1 }
  else ⟨s.independent / total, s.internal / total, s.provisional / total, s.discrepant / total⟩

/-! ### Data quality -/

inductive DataQualityStatus where
  | clean | mixed | incomplete
  deriving DecidableEq, Repr

structure DataQuality where
  status : DataQualityStatus
  navCoverage : Shares
  positionCoverage : PositionCoverage
  executability : ExecutabilityShares
  materialIssues : List MaterialIssue
  deriving DecidableEq, Repr

/-- Cash is confirmed by one dimension, securities by another. -/
def AccountValue.parts (value : AccountValue) : List (Dec × Dimension) := [(value.cash, .cash), (value.positions, .positions)]

/-- The parts of an account that there is something in, with the status of each. -/
def weighed (request : ReportRequest) (account : AccountId) (value : AccountValue) :
    List (Dec × Dimension × DimensionStatus) :=
  (value.parts.filter fun part => !part.1.isZero).map fun part =>
    (part.1, part.2, request.ledger.statusFor account request.asOf part.2)

def statusIssue (account : AccountId) (dimension : Dimension) : DimensionStatus → Option MaterialIssue
  | .discrepant => some (.discrepancy account dimension)
  | .provisional => some (.noIndependentSource account dimension)
  | .acceptedInternal | .acceptedIndependent => none

/-- What the weighing of one account finds. -/
def accountIssues (request : ReportRequest) (account : AccountId) (value : AccountValue) : List MaterialIssue :=
  (if account ∈ request.financing then [.unsupportedFinancing account] else []) ++
    (weighed request account value).filterMap fun part => statusIssue account part.2.1 part.2.2

def addShares (request : ReportRequest) (shares : Shares) (entry : AccountId × AccountValue) : Shares :=
  (weighed request entry.1 entry.2).foldl (fun shares part => shares.add part.2.2 |part.1.val|) shares

/-- The values that are weighed. When one of them cannot be computed there are none. -/
def weighedValues (state : LedgerState) (request : ReportRequest) : List (AccountId × AccountValue) :=
  ((accountValues state request.toReturnsRequest).toOption.getD ∅).toList

/-- What the state says of itself, over all accounts. -/
def stateIssues (state : LedgerState) : List MaterialIssue :=
  state.coverage.restoredAccounts.toList.map .restoredWithoutBasis ++
    (state.book.entries.toList.filter fun entry => entry.2.gap = some .amortisationAllocationUnknown).map
      (fun entry => .amortisationAllocationUnknown entry.1.account entry.1.instrument) ++
    (state.balances.iterCash.filter fun entry => decide (entry.2.amount.raw < 0)).map
      (fun entry => .negativeCash entry.1 entry.2.currency) ++
    state.coverage.firstEvent.toList.map .historyStartsAt

variable {Rate Metrics : Type} (rules : ReportRules Rate Metrics) (state : LedgerState) (request : ReportRequest)

def dataQuality : DataQuality :=
  let positions := positionValues state request.toReturnsRequest
  let issues := stateIssues state ++ (rules.accruedMismatch positions request).map .bond ++
    (weighedValues state request).flatMap fun entry => accountIssues request entry.1 entry.2
  let coverage := positionCoverage positions
  let nav := ((weighedValues state request).foldl (addShares request) {}).finish
  { status :=
      if coverage.uncovered ≠ [] ∨ issues.any MaterialIssue.isDefect then .incomplete
      else if nav.provisional = 0 ∧ nav.discrepant = 0 then .clean
      else .mixed
    navCoverage := nav
    positionCoverage := coverage
    executability := (positions.foldl ExecutabilityShares.addPosition {}).finish
    materialIssues := issues }

/-- The scheduled payments of the past, for each pair of the contour that the lot book knows. -/
def historicalReconciliationIssues : List BondIssue :=
  rules.collapse ((state.book.entries.toList.filter fun entry => request.contour.contains entry.1.account).flatMap
    fun entry => rules.judgePostings request entry.1 entry.2 state.income.entries[entry.1]?
      state.coverage.firstEventByAccount[entry.1.account]?)

/-- The block as it is reported: with the offers and the past payments, any defect makes it incomplete. -/
def reportedQuality : DataQuality :=
  let quality := dataQuality rules state request
  let issues := quality.materialIssues ++ (rules.unresolvedOffers request).map .bond ++
    (historicalReconciliationIssues rules state request).map .bond
  { quality with
    status := if issues.any MaterialIssue.isDefect then .incomplete else quality.status
    materialIssues := issues }

/-! ### The report with the rules for bonds -/

structure BondReturnsReport (Rate Metrics : Type) where
  contributed : Computed Dec
  withdrawn : Computed Dec
  terminalValue : Computed Dec
  xirr : Rate
  bondMetrics : List Metrics
  dataQuality : DataQuality

/-- The metrics of the bonds that are held, with the lots of the pair. -/
def bondPositionMetrics : List Metrics :=
  (positionValues state request.toReturnsRequest).filterMap fun position =>
    let a := position.assessment
    if !request.contour.contains a.account || a.quantity.isZero then none
    else rules.metrics request a state.book.entries[(⟨a.account, a.instrument⟩ : LotKey)]?

/-- `returns_report_with_bond_inputs`. -/
def returnsReportWithBondInputs : BondReturnsReport Rate Metrics where
  contributed := (flowSeries state request.toReturnsRequest).map FlowSeries.contributed
  withdrawn := (flowSeries state request.toReturnsRequest).map FlowSeries.withdrawn
  terminalValue := terminalValue state request.toReturnsRequest
  xirr := rules.rate (flowSeries state request.toReturnsRequest) (terminalValue state request.toReturnsRequest) request
  bondMetrics := bondPositionMetrics rules state request
  dataQuality := reportedQuality rules state request

end Returns
end Iaam
