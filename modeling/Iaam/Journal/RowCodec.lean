import Iaam.Journal.Text
import Iaam.Lib.Numbered

/-! Events as rows and back (`to_rows` and `from_rows` of `journal/kind.rs`). What a leg holds is not stored a
second time: it is read back out of the legs by kind and role. -/

namespace Iaam
namespace Rows

section
variable (c : TextCodecs)

/-! ### Event to rows -/

def encodeRelation : Relation → String × Option String
  | .none => ("none", none)
  | .reversal target => ("reversal", some (idText c target))
  | .replacement target => ("replacement", some (idText c target))

def encodeRuleSettlement : Option RuleSettlement → Option String × Option String × Option Int64
  | none => (none, none, none)
  | some .noRule => (some "no_rule", none, none)
  | some (.rule rule version) => (some "rule", some (idText c rule), some (.ofNat version))
  | some (.answeredMintingRule rule version) =>
    (some "answered_minting_rule", some (idText c rule), some (.ofNat version))

/-- The document, the sheet and the number of the row that the event was read from. -/
def encodeRow : Option RowLocator → Except RowError (Option String × Option String × Option Int64)
  | some row => do return (some row.document, row.sheet, some (← encodeRowNumber row.row))
  | none => .ok (none, none, none)

def legToRow (event : String) (ordinal : Nat) (leg : Leg) : LegRow where
  event
  ordinal
  kind := legKindCode leg.kind
  account := idText c leg.account
  custody := leg.custody.map (idText c)
  instrument := leg.instrument.map (idText c)
  amount := leg.money.map fun m => rawColumn m.amount
  currency := leg.money.map fun m => m.currency.code
  quantity := leg.quantity.map (decToText c)

def tradeToRow (event : String) (terms : Trade) : TradeRow where
  event
  side := tradeSideCode terms.side
  instrument := idText c terms.instrument
  quantity := decToText c terms.quantity
  grossAmount := rawColumn terms.gross.amount
  grossCurrency := terms.gross.currency.code
  feeAmount := terms.fee.map fun m => rawColumn m.amount
  feeCurrency := terms.fee.map fun m => m.currency.code
  basisFeeAmount := terms.basisFee.map fun m => rawColumn m.amount
  basisFeeCurrency := terms.basisFee.map fun m => m.currency.code
  basisFeeExactValue := terms.basisFeeExact.map fun m => decToText c m.value
  basisFeeExactCurrency := terms.basisFeeExact.map fun m => m.currency.code
  accruedInterestAmount := terms.accruedInterest.map fun m => rawColumn m.amount
  accruedInterestCurrency := terms.accruedInterest.map fun m => m.currency.code

def openingPositionToRow (event : String) (instrument : InstrumentId) (quantity : Quantity) (costBasis : Option Money)
    (assertions : OpeningAssertions) : OpeningPositionRow where
  event
  instrument := idText c instrument
  quantity := decToText c quantity
  costBasisAmount := costBasis.map fun m => rawColumn m.amount
  costBasisCurrency := costBasis.map fun m => m.currency.code
  quantityCertainty := certaintyCode assertions.quantity
  acquisitionDate := assertions.acquisitionDate.map (dateToText c)
  acquisitionDateCertainty := dateCertaintyCode assertions.acquisitionDateCertainty
  taxBasisCertainty := basisCertaintyCode assertions.taxBasis
  basisCurrency := assertions.basisCurrency.map CurrencyCode.code
  basisRate := assertions.basisRate.map (decToText c)
  feesIncluded := tristateCode assertions.feesIncluded
  ldvEligibility := knowledgeCode assertions.ldvEligibility
  priorCorporateActions := knowledgeCode assertions.priorCorporateActions

def controlAssertionToRow (event : String) (period : AssertionPeriod) (claim : ControlClaim) : ControlAssertionRow :=
  let base : ControlAssertionRow :=
    { event, periodFrom := dateToText c period.from, periodTo := dateToText c period.to, claimKind := claim.discriminant }
  match claim with
  | .cashBalance currency amount «at» =>
    { base with
      balancePoint := some (balancePointCode «at»)
      currency := some currency.code
      amount := some (rawColumn amount) }
  | .positionQuantity instrument quantity «at» =>
    { base with
      balancePoint := some (balancePointCode «at»)
      instrument := some (idText c instrument)
      quantity := some (decToText c quantity) }
  | .cashTurnover currency debit credit =>
    { base with
      currency := some currency.code
      debit := some (rawColumn debit)
      credit := some (rawColumn credit) }
  | .feesTotal currency amount | .incomeTotal currency amount | .taxWithheldTotal currency amount =>
    { base with currency := some currency.code, amount := some (rawColumn amount) }

def coverageGapSourceRow (event : String) (ordinal : Nat) (row : RefusedRow) : CoverageGapSourceRow where
  event
  ordinal
  source := idText c row.key.source
  rowNameKind := (rowNameToParts row.key.row).1
  rowNameValue := (rowNameToParts row.key.row).2

/-- A set of dimensions is walked in their order. -/
def coverageGapDimensionRows (event : String) (ordinal : Nat) (row : RefusedRow) : List CoverageGapDimensionRow :=
  (Dimension.all.filter (· ∈ row.dimensions)).map fun dimension => ⟨event, ordinal, dimension.code⟩

def coverageGapToDetail (event : String) (period : AssertionPeriod) (rows : List RefusedRow) : CoverageGapDetail where
  header := ⟨event, dateToText c period.from, dateToText c period.to⟩
  sources := Numbered.number (coverageGapSourceRow c event) rows
  dimensions := Numbered.numberAll (coverageGapDimensionRows event) rows

/-- The six columns of a basis allocation. -/
structure EncodedBasisAllocation where
  kind : Option String
  gap : Option String
  share : Option String
  inputsHash : Option String
  knownAsOf : Option String
  algorithm : Option Int64

def encodeBasisAllocation : BasisAllocation → Except RowError EncodedBasisAllocation
  | .unknown gap => .ok ⟨some "unknown", some gap.code, none, none, none, none⟩
  | .known share evidence => do
    let knownAsOf ← offsetDateTimeToText c "allocation_known_as_of" evidence.knowledgeAsOf
    return ⟨some "known", none, some (decToText c share.inner), some evidence.inputsHash, some knownAsOf,
      some (.ofNat evidence.algorithmVersion)⟩

/-- The columns that an amortisation and a redemption share. -/
def principalReturnToRow (event actionKind : String) (terms : PrincipalReturn) : CorporateActionRow where
  event
  actionKind
  instrument := some (idText c terms.instrument)
  custody := idText c terms.custody
  quantity := some (decToText c terms.quantity)
  principalReturnedPerUnitValue := some (decToText c terms.principalReturnedPerUnit.value)
  principalReturnedPerUnitCurrency := some terms.principalReturnedPerUnit.currency.code
  effectiveDate := dateToText c terms.effectiveDate
  recordDate := terms.recordDate.map (dateToText c)
  grounds := terms.grounds

def corporateActionToRow (event : String) : CorporateAction → Except RowError CorporateActionRow
  | .partialRedemption terms basisAllocation => do
    let allocation ← encodeBasisAllocation c basisAllocation
    return { principalReturnToRow c event "partial_redemption" terms with
      allocationKind := allocation.kind
      allocationGap := allocation.gap
      allocationShare := allocation.share
      allocationInputsHash := allocation.inputsHash
      allocationKnownAsOf := allocation.knownAsOf
      allocationAlgorithm := allocation.algorithm }
  | .redemption terms => .ok (principalReturnToRow c event "redemption" terms)
  | .conversion terms => .ok {
      event
      actionKind := "conversion"
      predecessor := some (idText c terms.predecessor)
      successor := some (idText c terms.successor)
      custody := idText c terms.custody
      quantityIn := some (decToText c terms.quantityIn)
      quantityOut := some (decToText c terms.quantityOut)
      ratio := some (decToText c terms.ratio)
      fractional := some (fractionalCode terms.fractional)
      basisTransfer := some (basisTransferCode terms.basisTransfer)
      effectiveDate := dateToText c terms.effectiveDate
      recordDate := terms.recordDate.map (dateToText c)
      grounds := terms.grounds }

def offerExerciseToRow (event : String) : OfferExerciseAction → OfferExerciseRow
  | .submitted submission window instrument quantity => {
      event
      actionKind := "offer_submitted"
      submission := idText c submission
      window := some (idText c window)
      instrument := some (idText c instrument)
      quantity := decToText c quantity }
  | .cancelled submission quantity => {
      event
      actionKind := "offer_cancelled"
      submission := idText c submission
      quantity := decToText c quantity }
  | .settled terms => {
      event
      actionKind := "offer_settled"
      submission := idText c terms.submission
      instrument := some (idText c terms.instrument)
      custody := some (idText c terms.custody)
      quantity := decToText c terms.quantity
      grossAmount := some (rawColumn terms.gross.amount)
      grossCurrency := some terms.gross.currency.code
      feeAmount := terms.fee.map fun m => rawColumn m.amount
      feeCurrency := terms.fee.map fun m => m.currency.code
      accruedInterestAmount := terms.accruedInterest.map fun m => rawColumn m.amount
      accruedInterestCurrency := terms.accruedInterest.map fun m => m.currency.code }

/-- The family of an event, with the amounts of its legs left out. -/
def kindToDetail (event : String) : EventKind → Except RowError DetailRows
  | .trade terms => .ok (.trade (tradeToRow c event terms))
  | .cashIn _ | .cashOut _ | .refund _ | .openingCash _ | .ownAccountMovement _ => .ok .none
  | .cashTransfer transferId source target _ =>
    .ok (.cashTransfer ⟨event, idText c transferId, idText c source, idText c target⟩)
  | .unresolvedOwnAccountMovement amount =>
    .ok (.unresolvedMovement ⟨event, rawColumn amount.amount, amount.currency.code⟩)
  | .income instrument _ kind => .ok (.income ⟨event, instrument.map (idText c), kind.map incomeKindCode⟩)
  | .fee _ origin => .ok (.fee ⟨event, feeOriginCode origin⟩)
  | .tax _ origin => .ok (.tax ⟨event, taxOriginCode origin⟩)
  | .openingPosition instrument quantity costBasis assertions =>
    .ok (.openingPosition (openingPositionToRow c event instrument quantity costBasis assertions))
  | .statedSecuritiesValue amount =>
    .ok (.statedSecuritiesValue ⟨event, rawColumn amount.amount, amount.currency.code⟩)
  | .valuation instrument price currency quality =>
    .ok (.valuation ⟨event, idText c instrument, decToText c price, currency.code, priceQualityCode quality⟩)
  | .controlAssertion period claim => .ok (.controlAssertion (controlAssertionToRow c event period claim))
  | .importCoverageGap period _ _ rows => .ok (.coverageGap (coverageGapToDetail c event period rows))
  | .corporateAction action => do return .corporateAction (← corporateActionToRow c event action)
  | .offerExercise action => .ok (.offerExercise (offerExerciseToRow c event action))

/-- The header of an event, from the encoded locator of its row. -/
def headerOf (e : Event) (row : Option String × Option String × Option Int64) : EventRow where
  id := idText c e.id
  owner := idText c e.owner
  account := idText c e.account
  kind := e.kind.discriminant
  effectiveDate := dateToText c e.order.date
  sourceTime := e.order.sourceTime.map (sourceTimeToText c)
  sequence := .ofNat e.order.sequence
  confidence := confidenceCode e.confidence
  relationKind := (encodeRelation c e.relation).1
  relationTarget := (encodeRelation c e.relation).2
  idempotencyKey := e.idempotencyKey
  recordedAt := ""
  dateTrade := e.dates.trade.map (dateToText c)
  dateSettled := e.dates.settled.map (dateToText c)
  dateCashPosted := e.dates.cashPosted.map (dateToText c)
  dateEntitlement := e.dates.entitlement.map (dateToText c)
  datePaid := e.dates.paid.map (dateToText c)
  taxPeriodOverride := e.dates.taxPeriodOverride.map Int64.ofInt
  source := idText c e.provenance.source
  rawHash := e.provenance.rawHash
  parserVersion := e.provenance.parserVersion
  sourceOperationId := e.provenance.sourceOperationId
  sourcePositionId := e.provenance.sourcePositionId
  sourceCategory := e.provenance.sourceCategory
  sourceKind := e.provenance.sourceKind
  ownerCategory := e.provenance.ownerCategory
  sourceCode := e.provenance.sourceCode
  sourceDescription := e.provenance.description
  sourceCounterparty := e.provenance.counterparty
  «import» := e.provenance.import.map (idText c)
  importSession := e.provenance.importSession.map (idText c)
  declaredBy := e.provenance.declaredBy.map (idText c)
  ruleSettlement := (encodeRuleSettlement c e.provenance.ruleSettlement).1
  settledByRule := (encodeRuleSettlement c e.provenance.ruleSettlement).2.1
  settledByRuleVersion := (encodeRuleSettlement c e.provenance.ruleSettlement).2.2
  rowDocument := row.1
  rowSheet := row.2.1
  rowNumber := row.2.2

def toRows (e : Event) : Except RowError (EventRow × List LegRow × DetailRows) := do
  let row ← encodeRow e.provenance.row
  let detail ← kindToDetail c (idText c e.id) e.kind
  return (headerOf c e row, Numbered.number (legToRow c (idText c e.id)) e.legs, detail)

/-! ### Rows to event -/

def decodeRelation (field kind : String) (target : Option String) : Except RowError Relation :=
  match kind, target with
  | "none", none => .ok .none
  | "reversal", some target => do return .reversal (← parseUuid c field target)
  | "replacement", some target => do return .replacement (← parseUuid c field target)
  | other, _ => .error (.invalidValue field (.text other))

/-- The rule and the version that two of the settlements name. -/
def decodeRule (rule : String) (version : Int64) : Except RowError (ClassificationRuleId × Nat) := do
  return (← parseUuid c "settled_by_rule" rule, ← u32FromI64 "settled_by_rule_version" version)

def decodeRuleSettlement (kind rule : Option String) (version : Option Int64) :
    Except RowError (Option RuleSettlement) :=
  match kind, rule, version with
  | none, none, none => .ok none
  | some "no_rule", none, none => .ok (some .noRule)
  | some "rule", some rule, some version => do
    let (rule, version) ← decodeRule c rule version
    return some (.rule rule version)
  | some "answered_minting_rule", some rule, some version => do
    let (rule, version) ← decodeRule c rule version
    return some (.answeredMintingRule rule version)
  | kind, rule, version => .error (.invalidValue "rule_settlement" (.settlement kind rule version))

/-- The locator is there when its document is. -/
def decodeRow (document sheet : Option String) (number : Option Int64) : Except RowError (Option RowLocator) :=
  document.mapM fun text => do
    let document ← orInvalid "row_document" (.text text) (RawHash.parse text)
    let row ← u64FromI64 "row_number" (← require "row_number" number)
    return ⟨document, sheet, row⟩

def decodeProvenance (header : EventRow) : Except RowError Provenance := do
  let source ← parseUuid c "source" header.source
  let rawHash ← orInvalid "raw_hash" (.text header.rawHash) (RawHash.parse header.rawHash)
  let «import» ← header.import.mapM (parseUuid c "import")
  let importSession ← header.importSession.mapM (parseUuid c "import_session")
  let declaredBy ← header.declaredBy.mapM (parseUuid c "declared_by")
  let ruleSettlement ← decodeRuleSettlement c header.ruleSettlement header.settledByRule header.settledByRuleVersion
  let row ← decodeRow header.rowDocument header.rowSheet header.rowNumber
  return {
    source
    rawHash
    parserVersion := header.parserVersion
    sourceOperationId := header.sourceOperationId
    sourcePositionId := header.sourcePositionId
    sourceCategory := header.sourceCategory
    sourceKind := header.sourceKind
    ownerCategory := header.ownerCategory
    sourceCode := header.sourceCode
    description := header.sourceDescription
    counterparty := header.sourceCounterparty
    «import»
    declaredBy
    importSession
    ruleSettlement
    row }

def decodeOrder (header : EventRow) : Except RowError EffectiveOrder := do
  let date ← dateFromText c "effective_date" header.effectiveDate
  let sourceTime ← header.sourceTime.mapM (sourceTimeFromText c "source_time")
  let sequence ← u32FromI64 "sequence" header.sequence
  return ⟨date, sourceTime, sequence⟩

def decodeDates (header : EventRow) : Except RowError EventDates := do
  let trade ← header.dateTrade.mapM (dateFromText c "date_trade")
  let settled ← header.dateSettled.mapM (dateFromText c "date_settled")
  let cashPosted ← header.dateCashPosted.mapM (dateFromText c "date_cash_posted")
  let entitlement ← header.dateEntitlement.mapM (dateFromText c "date_entitlement")
  let paid ← header.datePaid.mapM (dateFromText c "date_paid")
  let taxPeriodOverride ← header.taxPeriodOverride.mapM (i32FromI64 "tax_period_override")
  return { trade, settled, cashPosted, entitlement, paid, taxPeriodOverride }

def rowToLeg (row : LegRow) : Except RowError Leg := do
  let kind ← parseLegKind row.kind
  let account ← parseUuid c "event_legs.account" row.account
  let custody ← row.custody.mapM (parseUuid c "event_legs.custody")
  let instrument ← row.instrument.mapM (parseUuid c "event_legs.instrument")
  let money ← optionalMoney "event_legs" row.amount row.currency
  let quantity ← row.quantity.mapM (decFromText c "event_legs.quantity")
  return { kind, account, custody, instrument, money, quantity }

/-- The exact fee, whose value and currency come together. -/
def decodeExactFee (value currency : Option String) : Except RowError (Option CalcMoney) :=
  match value, currency with
  | none, none => .ok none
  | some value, some currency => do
    let value ← decFromText c "event_trade.basis_fee_exact_value" value
    let currency ← parseCurrency "event_trade.basis_fee_exact_currency" currency
    return some ⟨value, currency⟩
  | _, _ => .error (.invalidValue "event_trade.basis_fee_exact" (.text "amount/currency mismatch"))

def tradeFromRow (row : TradeRow) : Except RowError EventKind := do
  let side ← parseTradeSide row.side
  let instrument ← parseUuid c "event_trade.instrument" row.instrument
  let quantity ← decFromText c "event_trade.quantity" row.quantity
  let gross ← requireMoney "event_trade.gross" (some row.grossAmount) (some row.grossCurrency)
  let fee ← optionalMoney "event_trade.fee" row.feeAmount row.feeCurrency
  let basisFee ← optionalMoney "event_trade.basis_fee" row.basisFeeAmount row.basisFeeCurrency
  let basisFeeExact ← decodeExactFee c row.basisFeeExactValue row.basisFeeExactCurrency
  let accruedInterest ← optionalMoney "event_trade.accrued_interest" row.accruedInterestAmount row.accruedInterestCurrency
  return .trade { side, instrument, quantity, gross, fee, basisFee, basisFeeExact, accruedInterest }

def cashTransferFromRow (row : CashTransferRow) (legs : List Leg) : Except RowError EventKind := do
  let target ← parseUuid c "event_cash_transfer.to_account" row.toAccount
  let transferId ← parseUuid c "event_cash_transfer.transfer_id" row.transferId
  let source ← parseUuid c "event_cash_transfer.from_account" row.fromAccount
  let amount ← legMoneyForAccount legs .cash target
  return .cashTransfer transferId source target amount

def incomeFromRow (row : IncomeRow) (legs : List Leg) : Except RowError EventKind := do
  let instrument ← row.instrument.mapM (parseUuid c "event_income.instrument")
  let gross ← singleLegMoney legs .cash
  let kind ← row.incomeKind.mapM parseIncomeKind
  return .income instrument gross kind

/-- The basis is there when either of its columns is. -/
def decodeCostBasis (amount : Option Int64) (currency : Option String) : Except RowError (Option Money) :=
  match amount, currency with
  | none, none => .ok none
  | amount, currency => do return some (← requireMoney "event_opening_position.cost_basis" amount currency)

def decodeAssertions (row : OpeningPositionRow) : Except RowError OpeningAssertions := do
  let quantity ← parseCertainty row.quantityCertainty
  let acquisitionDate ← row.acquisitionDate.mapM (dateFromText c "event_opening_position.acquisition_date")
  let acquisitionDateCertainty ← parseDateCertainty row.acquisitionDateCertainty
  let taxBasis ← parseBasisCertainty row.taxBasisCertainty
  let basisCurrency ← row.basisCurrency.mapM (parseCurrency "event_opening_position.basis_currency")
  let basisRate ← row.basisRate.mapM (decFromText c "event_opening_position.basis_rate")
  let feesIncluded ← parseTristate row.feesIncluded
  let ldvEligibility ← parseKnowledge row.ldvEligibility
  let priorCorporateActions ← parseKnowledge row.priorCorporateActions
  return { quantity, acquisitionDate, acquisitionDateCertainty, taxBasis, basisCurrency, basisRate, feesIncluded,
           ldvEligibility, priorCorporateActions }

def openingPositionFromRow (row : OpeningPositionRow) : Except RowError EventKind := do
  let costBasis ← decodeCostBasis row.costBasisAmount row.costBasisCurrency
  let assertions ← decodeAssertions c row
  let instrument ← parseUuid c "event_opening_position.instrument" row.instrument
  let quantity ← decFromText c "event_opening_position.quantity" row.quantity
  return .openingPosition instrument quantity costBasis assertions

def valuationFromRow (row : ValuationRow) : Except RowError EventKind := do
  let instrument ← parseUuid c "event_valuation.instrument" row.instrument
  let price ← decFromText c "event_valuation.price" row.price
  let currency ← parseCurrency "event_valuation.currency" row.currency
  let quality ← parsePriceQuality row.quality
  return .valuation instrument price currency quality

def decodePeriod (field «from» «to» : String) : Except RowError AssertionPeriod := do
  let start ← dateFromText c field «from»
  let finish ← dateFromText c field «to»
  orInvalid field (.period start finish) (AssertionPeriod.between start finish)

/-- A currency and an amount, which a claim of totals consists of. -/
def decodeTotal (field : String) (row : ControlAssertionRow) : Except RowError (CurrencyCode × PostedMinor) := do
  let currency ← parseCurrency field (← requireStr field row.currency)
  let amount ← require field row.amount
  return (currency, .new amount)

def decodeClaim (field : String) (row : ControlAssertionRow) : Except RowError ControlClaim :=
  match row.claimKind with
  | "cash_balance" => do
    let (currency, amount) ← decodeTotal field row
    let «at» ← parseBalancePoint (← requireStr field row.balancePoint)
    return .cashBalance currency amount «at»
  | "position_quantity" => do
    let instrument ← parseUuid c field (← requireStr field row.instrument)
    let quantity ← decFromText c field (← requireStr field row.quantity)
    let «at» ← parseBalancePoint (← requireStr field row.balancePoint)
    return .positionQuantity instrument quantity «at»
  | "cash_turnover" => do
    let currency ← parseCurrency field (← requireStr field row.currency)
    let debit ← require field row.debit
    let credit ← require field row.credit
    return .cashTurnover currency (.new debit) (.new credit)
  | "fees_total" => do
    let (currency, amount) ← decodeTotal field row
    return .feesTotal currency amount
  | "income_total" => do
    let (currency, amount) ← decodeTotal field row
    return .incomeTotal currency amount
  | "tax_withheld_total" => do
    let (currency, amount) ← decodeTotal field row
    return .taxWithheldTotal currency amount
  | other => .error (.invalidValue "claim_kind" (.text other))

def controlAssertionFromRow (row : ControlAssertionRow) : Except RowError EventKind := do
  let period ← decodePeriod c "event_control_assertion" row.periodFrom row.periodTo
  let claim ← decodeClaim c "event_control_assertion" row
  return .controlAssertion period claim

/-- A refused row, with the dimensions that are stored under its ordinal. -/
def refusedRowFrom (dimensions : List CoverageGapDimensionRow) (source : CoverageGapSourceRow) :
    Except RowError RefusedRow := do
  let own ← (dimensions.filter fun row => row.ordinal = source.ordinal).mapM fun row => parseDimension row.dimension
  let key ← parseUuid c "event_coverage_gap_rows.source" source.source
  let row ← parseRowName source.rowNameKind source.rowNameValue
  return ⟨⟨key, row⟩, own.toFinset⟩

/-- The number of refused rows is the length of their list, when that fits in 32 bits. -/
def refusedOf (rows : List RefusedRow) : Except RowError Nat :=
  if rows.length < 2 ^ 32 then .ok rows.length else .error (.invalidValue "refused" (.count rows.length))

def coverageGapFromDetail (detail : CoverageGapDetail) : Except RowError EventKind := do
  let period ← decodePeriod c "event_coverage_gap" detail.header.periodFrom detail.header.periodTo
  let rows ← (Numbered.sortBy CoverageGapSourceRow.ordinal detail.sources).mapM (refusedRowFrom c detail.dimensions)
  let refused ← refusedOf rows
  return .importCoverageGap period (rows.foldl (fun union row => union ∪ row.dimensions) ∅) refused rows

def decodeBasisAllocation (columns : EncodedBasisAllocation) : Except RowError BasisAllocation :=
  match columns.kind with
  | some "unknown" => do return .unknown (← parseAllocationGap (← requireStr "allocation_kind" columns.gap))
  | some "known" => do
    let share ← decFromText c "allocation_share" (← requireStr "allocation_kind" columns.share)
    let share ← (ReturnedShare.new share).mapError fun error => .invalidValue "allocation_share" (.text error)
    let inputsHash ← requireStr "allocation_kind" columns.inputsHash
    let inputsHash ← (AllocationInputsHash.new inputsHash).mapError fun error =>
      .invalidValue "allocation_inputs_hash" (.text error)
    let knowledgeAsOf ← offsetDateTimeFromText c "allocation_known_as_of"
      (← requireStr "allocation_kind" columns.knownAsOf)
    let algorithmVersion ← u16FromI64 "allocation_algorithm" (← require "allocation_algorithm" columns.algorithm)
    return .known share ⟨inputsHash, knowledgeAsOf, algorithmVersion⟩
  | other => .error (.invalidValue "allocation_kind" (.text (other.getD "missing")))

/-- The terms that an amortisation and a redemption share. -/
def decodePrincipalReturn (field : String) (custody : CustodyId) (effectiveDate : Date) (recordDate : Option Date)
    (row : CorporateActionRow) (legs : List Leg) : Except RowError PrincipalReturn := do
  let instrument ← parseUuid c field (← requireStr field row.instrument)
  let quantity ← decFromText c field (← requireStr field row.quantity)
  let value ← decFromText c field (← requireStr field row.principalReturnedPerUnitValue)
  let currency ← parseCurrency field (← requireStr field row.principalReturnedPerUnitCurrency)
  let compensation ← singleLegMoney legs .principal
  return { instrument, custody, quantity, principalReturnedPerUnit := ⟨value, currency⟩, compensation, effectiveDate,
           recordDate, grounds := row.grounds }

def decodeConversion (field : String) (custody : CustodyId) (effectiveDate : Date) (recordDate : Option Date)
    (row : CorporateActionRow) (legs : List Leg) : Except RowError Conversion := do
  let predecessor ← parseUuid c field (← requireStr field row.predecessor)
  let successor ← parseUuid c field (← requireStr field row.successor)
  let ratio ← decFromText c field (← requireStr field row.ratio)
  let quantityIn ← decFromText c field (← requireStr field row.quantityIn)
  let quantityOut ← decFromText c field (← requireStr field row.quantityOut)
  let fractional ← parseFractional (← requireStr field row.fractional)
  let compensation ← optionalLegMoney legs .cash
  let basisTransfer ← parseBasisTransfer (← requireStr field row.basisTransfer)
  return { predecessor, successor, custody, ratio, quantityIn, quantityOut, fractional, compensation, effectiveDate,
           recordDate, grounds := row.grounds, basisTransfer }

def allocationColumns (row : CorporateActionRow) : EncodedBasisAllocation :=
  ⟨row.allocationKind, row.allocationGap, row.allocationShare, row.allocationInputsHash, row.allocationKnownAsOf,
    row.allocationAlgorithm⟩

def corporateActionFromRow (row : CorporateActionRow) (legs : List Leg) : Except RowError EventKind := do
  let field := "event_corporate_action"
  let custody ← parseUuid c field row.custody
  let effectiveDate ← dateFromText c field row.effectiveDate
  let recordDate ← row.recordDate.mapM (dateFromText c field)
  match row.actionKind with
  | "partial_redemption" =>
    let terms ← decodePrincipalReturn c field custody effectiveDate recordDate row legs
    let basisAllocation ← decodeBasisAllocation c (allocationColumns row)
    return .corporateAction (.partialRedemption terms basisAllocation)
  | "redemption" =>
    let terms ← decodePrincipalReturn c field custody effectiveDate recordDate row legs
    return .corporateAction (.redemption terms)
  | "conversion" =>
    let terms ← decodeConversion c field custody effectiveDate recordDate row legs
    return .corporateAction (.conversion terms)
  | other => .error (.invalidValue "action_kind" (.text other))

def decodeSettlement (field : String) (submission : OfferSubmissionId) (quantity : Quantity) (row : OfferExerciseRow) :
    Except RowError OfferSettlement := do
  let instrument ← parseUuid c field (← requireStr field row.instrument)
  let custody ← parseUuid c field (← requireStr field row.custody)
  let gross ← requireMoney field row.grossAmount row.grossCurrency
  let fee ← optionalMoney field row.feeAmount row.feeCurrency
  let accruedInterest ← optionalMoney field row.accruedInterestAmount row.accruedInterestCurrency
  return { submission, instrument, custody, quantity, gross, fee, accruedInterest }

def offerExerciseFromRow (row : OfferExerciseRow) : Except RowError EventKind := do
  let field := "event_offer_exercise"
  let submission ← parseUuid c field row.submission
  let quantity ← decFromText c field row.quantity
  match row.actionKind with
  | "offer_submitted" =>
    let window ← parseUuid c field (← requireStr field row.window)
    let instrument ← parseUuid c field (← requireStr field row.instrument)
    return .offerExercise (.submitted submission window instrument quantity)
  | "offer_cancelled" => return .offerExercise (.cancelled submission quantity)
  | "offer_settled" => return .offerExercise (.settled (← decodeSettlement c field submission quantity row))
  | other => .error (.invalidValue "action_kind" (.text other))

/-- The kinds without a detail are told apart by the stored discriminant. -/
def noneDetailFromKind (kind : String) (legs : List Leg) : Except RowError EventKind :=
  match kind with
  | "cash_in" => do return .cashIn (← singleLegMoney legs .cash)
  | "cash_out" => do return .cashOut (← singleLegMoney legs .cash)
  | "refund" => do return .refund (← singleLegMoney legs .cash)
  | "opening_cash" => do return .openingCash (← singleLegMoney legs .cash)
  | "own_account_movement" => do return .ownAccountMovement (← singleLegMoney legs .cash)
  | other => .error (.invalidValue "kind" (.text other))

/-- Every other detail names its kind. -/
def detailToKind (kind : String) (detail : DetailRows) (legs : List Leg) : Except RowError EventKind :=
  match detail with
  | .trade row => tradeFromRow c row
  | .cashTransfer row => cashTransferFromRow c row legs
  | .unresolvedMovement row => do
    return .unresolvedOwnAccountMovement
      (← requireMoney "event_unresolved_movement" (some row.amount) (some row.currency))
  | .income row => incomeFromRow c row legs
  | .fee row => do return .fee (← singleLegMoney legs .fee) (← parseFeeOrigin row.origin)
  | .tax row => do return .tax (← singleLegMoney legs .tax) (← parseTaxOrigin row.origin)
  | .openingPosition row => openingPositionFromRow c row
  | .statedSecuritiesValue row => do
    return .statedSecuritiesValue
      (← requireMoney "event_stated_securities_value" (some row.amount) (some row.currency))
  | .valuation row => valuationFromRow c row
  | .controlAssertion row => controlAssertionFromRow c row
  | .coverageGap detail => coverageGapFromDetail c detail
  | .corporateAction row => corporateActionFromRow c row legs
  | .offerExercise row => offerExerciseFromRow c row
  | .none => noneDetailFromKind kind legs

/-- The legs come back in the order of their ordinals, and the amounts of the kind out of the legs. -/
def fromRows (header : EventRow) (legs : List LegRow) (detail : DetailRows) : Except RowError Event := do
  let id ← parseUuid c "id" header.id
  let owner ← parseUuid c "owner" header.owner
  let account ← parseUuid c "account" header.account
  let relation ← decodeRelation c "relation_kind" header.relationKind header.relationTarget
  let confidence ← parseConfidence header.confidence
  let order ← decodeOrder c header
  let dates ← decodeDates c header
  let provenance ← decodeProvenance c header
  let legs ← (Numbered.sortBy LegRow.ordinal legs).mapM (rowToLeg c)
  let kind ← detailToKind c header.kind detail legs
  return { id, owner, account, kind, dates, order, legs, provenance, relation, confidence,
           idempotencyKey := header.idempotencyKey }

end
end Rows
end Iaam
