import Iaam.Event.Envelope

/-! The rows of the journal tables (`journal/rows.rs`), one structure for each table. Amounts that the legs of an
event already hold have no column. -/

namespace Iaam

/-- The envelope, the optional dates and the provenance of an event. The moment of recording is stamped by the
    write path. -/
structure EventRow where
  id : String
  owner : String
  account : String
  kind : String
  effectiveDate : String
  sourceTime : Option String
  sequence : Int64
  confidence : String
  relationKind : String
  relationTarget : Option String
  idempotencyKey : Option String
  recordedAt : String
  dateTrade : Option String
  dateSettled : Option String
  dateCashPosted : Option String
  dateEntitlement : Option String
  datePaid : Option String
  taxPeriodOverride : Option Int64
  source : String
  rawHash : String
  parserVersion : String
  sourceOperationId : Option String
  sourcePositionId : Option String
  sourceCategory : Option String
  sourceKind : Option String
  ownerCategory : Option String
  sourceCode : Option String
  sourceDescription : Option String
  sourceCounterparty : Option String
  «import» : Option String
  importSession : Option String
  declaredBy : Option String
  ruleSettlement : Option String
  settledByRule : Option String
  settledByRuleVersion : Option Int64
  rowDocument : Option String
  rowSheet : Option String
  rowNumber : Option Int64
  deriving DecidableEq

/-- A leg. The ordinal is a position in a list held in memory, so its 64 bits are never exceeded. -/
structure LegRow where
  event : String
  ordinal : Int
  kind : String
  account : String
  custody : Option String
  instrument : Option String
  amount : Option Int64
  currency : Option String
  quantity : Option String
  deriving DecidableEq

structure TradeRow where
  event : String
  side : String
  instrument : String
  quantity : String
  grossAmount : Int64
  grossCurrency : String
  feeAmount : Option Int64
  feeCurrency : Option String
  basisFeeAmount : Option Int64
  basisFeeCurrency : Option String
  basisFeeExactValue : Option String
  basisFeeExactCurrency : Option String
  accruedInterestAmount : Option Int64
  accruedInterestCurrency : Option String
  deriving DecidableEq

/-- Both endpoints are stored: the two legs are both cash and carry no role. -/
structure CashTransferRow where
  event : String
  transferId : String
  fromAccount : String
  toAccount : String
  deriving DecidableEq

structure UnresolvedMovementRow where
  event : String
  amount : Int64
  currency : String
  deriving DecidableEq

structure IncomeRow where
  event : String
  instrument : Option String
  incomeKind : Option String
  deriving DecidableEq

structure FeeRow where
  event : String
  origin : String
  deriving DecidableEq

structure TaxRow where
  event : String
  origin : String
  deriving DecidableEq

structure OpeningPositionRow where
  event : String
  instrument : String
  quantity : String
  costBasisAmount : Option Int64
  costBasisCurrency : Option String
  quantityCertainty : String
  acquisitionDate : Option String
  acquisitionDateCertainty : String
  taxBasisCertainty : String
  basisCurrency : Option String
  basisRate : Option String
  feesIncluded : String
  ldvEligibility : String
  priorCorporateActions : String
  deriving DecidableEq

structure StatedSecuritiesValueRow where
  event : String
  amount : Int64
  currency : String
  deriving DecidableEq

structure ValuationRow where
  event : String
  instrument : String
  price : String
  currency : String
  quality : String
  deriving DecidableEq

/-- Six kinds of claim share the table; a column that a kind does not use is empty. -/
structure ControlAssertionRow where
  event : String
  periodFrom : String
  periodTo : String
  claimKind : String
  balancePoint : Option String := none
  currency : Option String := none
  amount : Option Int64 := none
  instrument : Option String := none
  quantity : Option String := none
  debit : Option Int64 := none
  credit : Option Int64 := none
  deriving DecidableEq

structure CoverageGapRow where
  event : String
  periodFrom : String
  periodTo : String
  deriving DecidableEq

structure CoverageGapSourceRow where
  event : String
  ordinal : Int
  source : String
  rowNameKind : String
  rowNameValue : String
  deriving DecidableEq

structure CoverageGapDimensionRow where
  event : String
  ordinal : Int
  dimension : String
  deriving DecidableEq

/-- Three kinds of action share the table. -/
structure CorporateActionRow where
  event : String
  actionKind : String
  instrument : Option String := none
  predecessor : Option String := none
  successor : Option String := none
  custody : String
  quantity : Option String := none
  quantityIn : Option String := none
  quantityOut : Option String := none
  ratio : Option String := none
  principalReturnedPerUnitValue : Option String := none
  principalReturnedPerUnitCurrency : Option String := none
  fractional : Option String := none
  basisTransfer : Option String := none
  effectiveDate : String
  recordDate : Option String
  grounds : Option String
  allocationKind : Option String := none
  allocationGap : Option String := none
  allocationShare : Option String := none
  allocationInputsHash : Option String := none
  allocationKnownAsOf : Option String := none
  allocationAlgorithm : Option Int64 := none
  deriving DecidableEq

structure OfferExerciseRow where
  event : String
  actionKind : String
  submission : String
  window : Option String := none
  instrument : Option String := none
  custody : Option String := none
  quantity : String
  grossAmount : Option Int64 := none
  grossCurrency : Option String := none
  feeAmount : Option Int64 := none
  feeCurrency : Option String := none
  accruedInterestAmount : Option Int64 := none
  accruedInterestCurrency : Option String := none
  deriving DecidableEq

structure CoverageGapDetail where
  header : CoverageGapRow
  sources : List CoverageGapSourceRow
  dimensions : List CoverageGapDimensionRow
  deriving DecidableEq

/-- What an event holds beyond its legs. Five kinds hold nothing. -/
inductive DetailRows where
  | trade (row : TradeRow)
  | cashTransfer (row : CashTransferRow)
  | unresolvedMovement (row : UnresolvedMovementRow)
  | income (row : IncomeRow)
  | fee (row : FeeRow)
  | tax (row : TaxRow)
  | openingPosition (row : OpeningPositionRow)
  | statedSecuritiesValue (row : StatedSecuritiesValueRow)
  | valuation (row : ValuationRow)
  | controlAssertion (row : ControlAssertionRow)
  | coverageGap (detail : CoverageGapDetail)
  | corporateAction (row : CorporateActionRow)
  | offerExercise (row : OfferExerciseRow)
  | none
  deriving DecidableEq

/-- The same detail, the two collections of a coverage gap in some other order. -/
def DetailRows.Shuffled : DetailRows → DetailRows → Prop
  | coverageGap detail, detail' => ∃ sources dimensions, detail.sources.Perm sources ∧
      detail.dimensions.Perm dimensions ∧ detail' = coverageGap ⟨detail.header, sources, dimensions⟩
  | detail, detail' => detail' = detail

/-! ### Errors -/

/-- A value that a column does not take, as the error shows it. -/
inductive Refused where
  | text (value : String)
  | integer (value : Int64)
  | count (value : Nat)
  | period («from» «to» : Date)
  | moment (value : OffsetDateTime)
  | settlement (kind rule : Option String) (version : Option Int64)
  | legWithoutMoney (kind : LegKind) (account : Option AccountId)
  | legCount (expected : String) (kind : LegKind) (account : Option AccountId) (found : Nat)
  deriving DecidableEq

/-- The errors of the store that the rows raise. -/
inductive RowError where
  | invalidValue (field : String) (value : Refused)
  | rowNumberOutOfRange (row : Nat)
  deriving DecidableEq

end Iaam
