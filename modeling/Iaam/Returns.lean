import Iaam.Lib.Numbered
import Iaam.Quotation
import Iaam.Report.Balances

/-! The money figures of the returns report and the fingerprint of its inputs (`returns/mod.rs`,
`returns/xirr.rs`). The rate, the quality of the data and the metrics of the bonds are not modelled. -/

namespace Iaam
namespace Returns

/-- Why a figure was not computed: the reasons the money figures can have. -/
inductive NotComputable where
  | missingPrice (instrument : InstrumentId)
  | missingFxRate (source target : CurrencyCode) (date : Date)
  | quotationBasisUnknown (instrument : InstrumentId)
  | quotationBasisContradictsEvidence (instrument : InstrumentId)
  | remainingFaceUnknown (instrument : InstrumentId)
  | stateNewerThanReport (lastEvent asOf : Date)
  | numeric (code : String)
  | scheduleMissing (instrument : InstrumentId)
  deriving DecidableEq, Repr

def NotComputable.ofValuation : ValuationError → NotComputable
  | .missingFxRate source target date => .missingFxRate source target date
  | .numeric _ => .numeric "numeric"

/-- A figure, or why there is none. -/
abbrev Computed (α : Type) := Except NotComputable α

structure ReturnsRequest where
  contour : ContourDefinition
  asOf : Date
  reportCurrency : CurrencyCode
  fx : FxTable
  coordinate : KnowledgeCoordinate
  marketPrices : List PriceCandidate
  bondSchedules : Tree.Map InstrumentId Bond.BondSchedule

/-! ### Positions -/

inductive PositionAssessmentKind where
  | selected (price : SelectedPrice)
  | legacyDerived (quality : PriceQuality)
  | uncovered (reason : UncoveredReason)
  deriving DecidableEq, Repr

structure PositionAssessment where
  account : AccountId
  instrument : InstrumentId
  quantity : Quantity
  rawPrice : Option InstrumentPrice
  kind : PositionAssessmentKind
  remainingFace : Except NotComputable (Option PerUnitAmount)

def remainingPrincipalReason (instrument : InstrumentId) : Bond.RemainingPrincipalError → NotComputable
  | .unknown => .remainingFaceUnknown instrument
  | .scheduleNotValidated | .shareNotPositive | .prefixAboveHundred => .scheduleMissing instrument
  | .numeric _ => .numeric "remaining_principal"

def remainingFace (request : ReturnsRequest) (instrument : InstrumentId) : Except NotComputable (Option PerUnitAmount) :=
  match request.bondSchedules[instrument]? with
  | none => .ok none
  | some schedule =>
    ((Bond.remainingPrincipal schedule request.asOf).mapError (remainingPrincipalReason instrument)).map some

/-- The decision of the price of an instrument, the one the asset snapshot reads. -/
def decisionOf (state : LedgerState) (request : ReturnsRequest) (instrument : InstrumentId) : PriceDecision :=
  decidePrice ⟨state.prices, request.marketPrices, request.coordinate.sourcePriorityVersion⟩
    ⟨instrument, request.asOf, request.coordinate.knowledgeAsOf⟩

def kindOf : PriceDecision → PositionAssessmentKind
  | .selected price => .selected price
  | .legacyDerived quality _ => .legacyDerived quality
  | .uncovered reason => .uncovered reason

def assess (state : LedgerState) (request : ReturnsRequest) (entry : PositionKey × Quantity) : PositionAssessment where
  account := entry.1.account
  instrument := entry.1.instrument
  quantity := entry.2
  rawPrice := state.prices.priceAtOrBefore entry.1.instrument request.asOf
  kind := kindOf (decisionOf state request entry.1.instrument)
  remainingFace := remainingFace request entry.1.instrument

/-- The positions of the contour that are not zero. -/
def positionAssessments (state : LedgerState) (request : ReturnsRequest) : List PositionAssessment :=
  (state.balances.iterPositions.filter fun entry =>
    request.contour.contains entry.1.account && !entry.2.isZero).map (assess state request)

def quotationError (instrument : InstrumentId) : QuotationError → NotComputable
  | .basisUnknown => .quotationBasisUnknown instrument
  | .principalUnknown => .remainingFaceUnknown instrument
  | .numeric _ => .numeric "numeric"

def contradicted : PositionAssessmentKind → Bool
  | .selected price => price.candidate.basisEvidenceContradicts
  | .legacyDerived _ | .uncovered _ => false

/-- The face is looked at only for a quotation in percent of it. -/
def faceFor (basis : QuotationBasis) (face : Except NotComputable (Option PerUnitAmount)) :
    Except NotComputable (Option PerUnitAmount) :=
  match basis with
  | .percentOfRemainingFace => face
  | .moneyPerUnit | .unknown => .ok none

def positionValue (assessment : PositionAssessment) (price : Dec) (basis : QuotationBasis) (venueCurrency : CurrencyCode)
    (face : Except NotComputable (Option PerUnitAmount)) (request : ReturnsRequest) : Computed Dec :=
  if contradicted assessment.kind then .error (.quotationBasisContradictsEvidence assessment.instrument)
  else do
    let remainingFace ← faceFor basis face
    let (moneyPerUnit, currency) ← (QuotationV1.moneyPerUnit basis price venueCurrency remainingFace).mapError
      (quotationError assessment.instrument)
    let localValue ← (assessment.quantity.checkedMul moneyPerUnit).mapError fun _ => .numeric "numeric"
    match request.fx.rate currency request.reportCurrency request.asOf with
    | none => .error (.missingFxRate currency request.reportCurrency request.asOf)
    | some rate => (localValue.checkedMul rate).mapError fun _ => .numeric "numeric"

/-- The value of a position in the currency of the report. -/
def assessedValue (request : ReturnsRequest) (assessment : PositionAssessment) : Computed Dec :=
  match assessment.kind, assessment.rawPrice with
  | .selected price, _ =>
    positionValue assessment price.candidate.price price.candidate.basis price.candidate.currency
      assessment.remainingFace request
  | .legacyDerived _, some price => positionValue assessment price.price .moneyPerUnit price.currency (.ok none) request
  | .legacyDerived _, none | .uncovered _, _ => .error (.missingPrice assessment.instrument)

structure PositionValue where
  assessment : PositionAssessment
  value : Computed Dec

def positionValues (state : LedgerState) (request : ReturnsRequest) : List PositionValue :=
  (positionAssessments state request).map fun assessment => ⟨assessment, assessedValue request assessment⟩

/-! ### Flows and values -/

/-- A state with an event after the date of the report was put together wrongly. -/
def guardStateNotNewer (state : LedgerState) (asOf : Date) : Computed Unit :=
  match state.coverage.lastEvent with
  | some last => if asOf < last then .error (.stateNewerThanReport last asOf) else .ok ()
  | none => .ok ()

def add (l r : Dec) : Computed Dec := (l.checkedAdd r).mapError fun _ => .numeric "numeric"
def sub (l r : Dec) : Computed Dec := (l.checkedSub r).mapError fun _ => .numeric "numeric"
def neg (d : Dec) : Computed Dec := d.checkedNeg.mapError fun _ => .numeric "numeric"

/-- An amount in the currency of the report. -/
def converted (request : ReturnsRequest) (date : Date) (amount : Money) : Computed Dec :=
  (convertMoney amount request.reportCurrency date request.fx).mapError .ofValuation

structure FlowSeries where
  contributed : Dec
  withdrawn : Dec
  flows : List (Date × Dec)

/-- What came in is contributed, what went out withdrawn. -/
def addDirected (series : FlowSeries) (amount : Dec) : FlowDirection → Computed FlowSeries
  | .in => do
    let contributed ← add series.contributed amount
    return { series with contributed }
  | .out => do
    let withdrawn ← sub series.withdrawn amount
    return { series with withdrawn }

/-- The series has the amounts with the sign they have for the owner. -/
def addFlow (request : ReturnsRequest) (series : FlowSeries) (flow : ExternalFlow) : Computed FlowSeries := do
  let amount ← converted request flow.date flow.amount
  let series ← addDirected series amount flow.direction
  let owner ← neg amount
  return { series with flows := series.flows ++ [(flow.date, owner)] }

/-- The flows up to the date, in the order of the state. -/
def flowsUpTo (state : LedgerState) (asOf : Date) : List ExternalFlow :=
  state.flows.external.filter fun flow => flow.date ≤ asOf

def flowSeries (state : LedgerState) (request : ReturnsRequest) : Computed FlowSeries := do
  guardStateNotNewer state request.asOf
  let series ← (flowsUpTo state request.asOf).foldlM (addFlow request) ⟨.zero, .zero, []⟩
  return { series with flows := Numbered.sortBy Prod.fst series.flows }

structure AccountValue where
  cash : Dec
  positions : Dec

def AccountValue.total (value : AccountValue) : Computed Dec := add value.cash value.positions

/-- The accounts of the contour with their values. -/
abbrev AccountValues := Tree.Map AccountId AccountValue

def slotOf (values : AccountValues) (account : AccountId) : AccountValue := values[account]?.getD ⟨.zero, .zero⟩

def addCash (request : ReturnsRequest) (values : AccountValues) (entry : AccountId × Money) : Computed AccountValues := do
  let amount ← converted request request.asOf entry.2
  let slot := slotOf values entry.1
  let cash ← add slot.cash amount
  return values.insert entry.1 { slot with cash }

def addPosition (values : AccountValues) (position : PositionValue) : Computed AccountValues := do
  let value ← position.value
  let slot := slotOf values position.assessment.account
  let positions ← add slot.positions value
  return values.insert position.assessment.account { slot with positions }

/-- The cash of the contour, by account and currency. -/
def contourCash (state : LedgerState) (request : ReturnsRequest) : List (AccountId × Money) :=
  state.balances.iterCash.filter fun entry => request.contour.contains entry.1

def accountValues (state : LedgerState) (request : ReturnsRequest) : Computed AccountValues := do
  guardStateNotNewer state request.asOf
  let values ← (contourCash state request).foldlM (addCash request) ∅
  (positionValues state request).foldlM addPosition values

def terminalValue (state : LedgerState) (request : ReturnsRequest) : Computed Dec := do
  let values ← accountValues state request
  values.toList.foldlM (fun total entry => do
    let value ← entry.2.total
    add total value) .zero

/-! ### The fingerprint -/

inductive SelectedOrigin where
  | market (venue priceKind : String)
  | reportParsed (source : SourceId)
  | ownerAsserted
  deriving DecidableEq, Repr

structure SelectedProvenance where
  priceKind : Option String
  origin : SelectedOrigin
  venue : Option String
  observedAt : Option OffsetDateTime
  valuationPolicyVersion : Nat
  sourcePriorityVersion : Nat
  carryForwardLimit : Nat
  priceMaxAge : Nat
  deriving DecidableEq, Repr

/-- What the fingerprint has of a selected price. -/
structure SelectedObservation where
  instrument : InstrumentId
  price : Dec
  currency : CurrencyCode
  quotationBasis : String
  basisEvidence : String
  tradeDate : Date
  observedAt : Option OffsetDateTime
  executability : String
  selection : PriceSelection
  freshness : PriceFreshness
  provenance : SelectedProvenance
  deriving DecidableEq, Repr

def selectedOrigin : PriceOrigin → SelectedOrigin
  | .market venue kind => .market venue.board kind.asStr
  | .reportParsed source => .reportParsed source
  | .ownerAsserted => .ownerAsserted

def executabilityCode : SourceExecutability → String
  | .executable => "executable"
  | .indicativePreviousClose => "indicative_previous_close"
  | .unknown => "unknown"

/-- The flag of a basis that the evidence contradicts is not part of it. -/
def selectedObservation (price : SelectedPrice) : SelectedObservation where
  instrument := price.candidate.instrument
  price := price.candidate.price
  currency := price.candidate.currency
  quotationBasis := price.candidate.basis.code
  basisEvidence := price.candidate.basisEvidence
  tradeDate := price.candidate.tradeDate
  observedAt := price.candidate.observedAt
  executability := executabilityCode price.candidate.executability
  selection := price.selection
  freshness := price.freshness
  provenance := {
    priceKind := price.provenance.priceKind
    origin := selectedOrigin price.provenance.origin
    venue := price.provenance.venue
    observedAt := price.provenance.observedAt
    valuationPolicyVersion := price.provenance.valuationPolicyVersion
    sourcePriorityVersion := price.provenance.sourcePriorityVersion
    carryForwardLimit := price.provenance.carryForwardLimit
    priceMaxAge := price.provenance.priceMaxAge }

inductive PositionValuation where
  | selected (observation : SelectedObservation)
  | legacyDerived (quality : PriceQuality) (price : Option InstrumentPrice)
  | uncovered (reason : String)
  deriving DecidableEq, Repr

def uncoveredReasonCode : UncoveredReason → String
  | .noObservation => "no_observation"
  | .tooOld => "too_old"
  | .ambiguousVenue => "ambiguous_venue"
  | .ambiguousCandidate => "ambiguous_candidate"

structure SelectedPosition where
  account : AccountId
  instrument : InstrumentId
  quantity : Quantity
  valuation : PositionValuation
  deriving DecidableEq, Repr

def selectedPosition (assessment : PositionAssessment) : SelectedPosition where
  account := assessment.account
  instrument := assessment.instrument
  quantity := assessment.quantity
  valuation := match assessment.kind with
    | .selected price => .selected (selectedObservation price)
    | .legacyDerived quality => .legacyDerived quality assessment.rawPrice
    | .uncovered reason => .uncovered (uncoveredReasonCode reason)

/-- The currency of the quotation of a position. -/
def PositionValuation.currency? : PositionValuation → Option CurrencyCode
  | selected observation => some observation.currency
  | legacyDerived _ price => price.map InstrumentPrice.currency
  | uncovered _ => none

/-- The inputs that are hashed, as far as the money figures have to do with them: the coupons and offers of the
    schedules, the observed interest and the versions of the other rules come on top. -/
structure SelectedInputs where
  coordinate : KnowledgeCoordinate
  asOf : Date
  contour : ContourDefinition
  reportCurrency : CurrencyCode
  flows : List ExternalFlow
  cash : List (AccountId × Money)
  positions : List SelectedPosition
  fxSource : FxSource
  rates : List (CurrencyCode × CurrencyCode × Date × Option Dec)
  bondSchedules : Tree.Map InstrumentId Bond.BondSchedule

def selectedFlows (state : LedgerState) (request : ReturnsRequest) : List ExternalFlow :=
  Numbered.sortBy (fun flow => toLex (flow.date, flow.event)) (state.flows.external.filter fun flow =>
    flow.date ≤ request.asOf ∧ flow.contour = request.contour.id ∧ flow.version = request.contour.version)

def selectedCash (state : LedgerState) (request : ReturnsRequest) : List (AccountId × Money) :=
  Numbered.sortBy (fun entry => toLex (entry.1, entry.2.currency)) (contourCash state request)

/-- The currencies the report is taken to need a rate of, with the days. -/
def fxKeys (asOf : Date) (flows : List ExternalFlow) (cash : List (AccountId × Money))
    (positions : List SelectedPosition) : Tree.Set (CurrencyCode ×ₗ Date) :=
  let wanted := flows.map (fun flow => toLex (flow.amount.currency, flow.date)) ++
    cash.map (fun entry => toLex (entry.2.currency, asOf)) ++
    positions.filterMap fun position => position.valuation.currency?.map fun currency => toLex (currency, asOf)
  wanted.foldl (fun keys key => keys.insert key) ∅

def selectedInputs (state : LedgerState) (request : ReturnsRequest) : SelectedInputs :=
  let flows := selectedFlows state request
  let cash := selectedCash state request
  let positions := (positionAssessments state request).map selectedPosition
  { coordinate := request.coordinate
    asOf := request.asOf
    contour := request.contour
    reportCurrency := request.reportCurrency
    flows := flows
    cash := cash
    positions := positions
    fxSource := request.fx.source
    rates := (fxKeys request.asOf flows cash positions).toList.map fun key =>
      ((ofLex key).1, request.reportCurrency, (ofLex key).2,
        request.fx.rate (ofLex key).1 request.reportCurrency (ofLex key).2)
    bondSchedules := request.bondSchedules }

/-! ### The report -/

structure ReturnsReport (H : Type) where
  inputsHash : H
  contributed : Computed Dec
  withdrawn : Computed Dec
  terminalValue : Computed Dec

/-- The figures with the fingerprint of their inputs. The encoding and the hash are given as one function. -/
def returnsReport {H : Type} (hashSelected : SelectedInputs → H) (state : LedgerState) (request : ReturnsRequest) :
    ReturnsReport H where
  inputsHash := hashSelected (selectedInputs state request)
  contributed := (flowSeries state request).map FlowSeries.contributed
  withdrawn := (flowSeries state request).map FlowSeries.withdrawn
  terminalValue := terminalValue state request

end Returns
end Iaam
