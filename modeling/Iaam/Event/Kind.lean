import Iaam.Money
import Mathlib.Data.Finset.Basic

/-! The facts a journal can record (`event/kind.rs`, `event/leg.rs`, `event/corporate_action.rs`,
`event/offer.rs`, `event/allocation.rs`, `reconciliation/claim.rs`, `event/source_row.rs`). -/

namespace Iaam

/-! ### Legs -/

inductive LegKind where
  | cash | securityQuantity | principal | fee | tax
  deriving DecidableEq, Repr

/-- One movement. A positive amount or quantity flows into the account, a negative one out of it. -/
structure Leg where
  kind : LegKind
  account : AccountId
  custody : Option CustodyId
  instrument : Option InstrumentId
  money : Option Money
  quantity : Option Quantity
  deriving DecidableEq, Repr

namespace Leg

def cash (account : AccountId) (money : Money) : Leg := ⟨.cash, account, none, none, some money, none⟩

def security (account : AccountId) (custody : CustodyId) (instrument : InstrumentId) (quantity : Quantity) : Leg :=
  ⟨.securityQuantity, account, some custody, some instrument, none, some quantity⟩

def fee (account : AccountId) (money : Money) : Leg := ⟨.fee, account, none, none, some money, none⟩

def tax (account : AccountId) (money : Money) : Leg := ⟨.tax, account, none, none, some money, none⟩

def principal (account : AccountId) (instrument : InstrumentId) (money : Money) : Leg :=
  ⟨.principal, account, none, some instrument, some money, none⟩

/-- Fees, taxes and principal are cash as well; a security leg moves none, whatever money it names. -/
def cashEffect (leg : Leg) : Option Money :=
  match leg.kind with
  | .cash | .fee | .tax | .principal => leg.money
  | .securityQuantity => none

end Leg

/-! ### What the sources assert -/

inductive Dimension where
  | cash | positions | taxBasis | income
  deriving DecidableEq, Repr

structure AssertionPeriod where
  «from» : Date
  «to» : Date
  deriving DecidableEq, Repr

namespace AssertionPeriod

def isWellFormed (p : AssertionPeriod) : Bool := p.from ≤ p.to

def contains (p : AssertionPeriod) (date : Date) : Bool := p.from ≤ date && date ≤ p.to

end AssertionPeriod

inductive BalancePoint where
  | opening | closing
  deriving DecidableEq, Repr

inductive ControlClaim where
  | cashBalance (currency : CurrencyCode) (amount : PostedMinor) («at» : BalancePoint)
  | positionQuantity (instrument : InstrumentId) (quantity : Quantity) («at» : BalancePoint)
  | cashTurnover (currency : CurrencyCode) (debit credit : PostedMinor)
  | feesTotal (currency : CurrencyCode) (amount : PostedMinor)
  | incomeTotal (currency : CurrencyCode) (amount : PostedMinor)
  | taxWithheldTotal (currency : CurrencyCode) (amount : PostedMinor)
  deriving DecidableEq, Repr

namespace ControlClaim

def dimension : ControlClaim → Dimension
  | cashBalance .. | cashTurnover .. | feesTotal .. => .cash
  | positionQuantity .. => .positions
  | incomeTotal .. => .income
  | taxWithheldTotal .. => .taxBasis

/-- The value that must not be negative, with the name of its field; of a turnover, the smaller side. -/
def nonNegativeField : ControlClaim → Option (String × Int)
  | cashBalance .. | positionQuantity .. => none
  | cashTurnover _ debit credit => some ("turnover", if debit.raw ≤ credit.raw then debit.raw else credit.raw)
  | feesTotal _ amount | incomeTotal _ amount | taxWithheldTotal _ amount => some ("amount", amount.raw)

end ControlClaim

inductive RowName where
  | given (name : String)
  | fingerprint (hash : String)
  deriving DecidableEq, Repr

structure SourceRowKey where
  source : SourceId
  row : RowName
  deriving DecidableEq, Repr

structure RefusedRow where
  key : SourceRowKey
  dimensions : Finset Dimension
  deriving DecidableEq

/-! ### Basis allocation -/

inductive AllocationGap where
  | notComputed | scheduleMissing | scheduleNotValidated | noRepaymentOnDate | amountMismatch
  | currencyMismatch | ambiguousSameDateRepayments | invalidPrefix
  deriving DecidableEq, Repr

/-- The share of the outstanding principal an event returns: positive and at most one. -/
structure ReturnedShare where
  inner : Dec
  pos : 0 < inner.val
  leOne : inner.val ≤ 1
  deriving DecidableEq

structure AllocationEvidence where
  inputsHash : String
  knowledgeAsOf : OffsetDateTime
  algorithmVersion : Nat
  deriving DecidableEq, Repr

inductive BasisAllocation where
  | unknown (gap : AllocationGap)
  | known (share : ReturnedShare) (evidence : AllocationEvidence)
  deriving DecidableEq

/-! ### Corporate actions and offers -/

inductive FractionalTreatment where
  | cashCompensated | roundedDown | notApplicable
  deriving DecidableEq, Repr

inductive BasisTransferRule where
  | carryOver | restart
  deriving DecidableEq, Repr

/-- Replacement of a predecessor security by a successor. -/
structure Conversion where
  predecessor : InstrumentId
  successor : InstrumentId
  custody : CustodyId
  ratio : Dec
  quantityIn : Quantity
  quantityOut : Quantity
  fractional : FractionalTreatment
  compensation : Option Money
  effectiveDate : Date
  recordDate : Option Date
  grounds : Option String
  basisTransfer : BasisTransferRule
  deriving DecidableEq, Repr

/-- What an amortisation and a redemption both state. -/
structure PrincipalReturn where
  instrument : InstrumentId
  custody : CustodyId
  quantity : Quantity
  principalReturnedPerUnit : PerUnitAmount
  compensation : Money
  effectiveDate : Date
  recordDate : Option Date
  grounds : Option String
  deriving DecidableEq, Repr

inductive CorporateAction where
  | partialRedemption (terms : PrincipalReturn) (basisAllocation : BasisAllocation)
  | redemption (terms : PrincipalReturn)
  | conversion (terms : Conversion)
  deriving DecidableEq

/-- A completed buyback. -/
structure OfferSettlement where
  submission : OfferSubmissionId
  instrument : InstrumentId
  custody : CustodyId
  quantity : Quantity
  gross : Money
  fee : Option Money
  accruedInterest : Option Money
  deriving DecidableEq, Repr

inductive OfferExerciseAction where
  | submitted (submission : OfferSubmissionId) (window : OfferWindowId) (instrument : InstrumentId)
      (quantity : Quantity)
  | cancelled (submission : OfferSubmissionId) (quantity : Quantity)
  | settled (terms : OfferSettlement)
  deriving DecidableEq, Repr

/-- The request the fact belongs to. -/
def OfferExerciseAction.submission : OfferExerciseAction → OfferSubmissionId
  | submitted submission .. | cancelled submission _ => submission
  | settled terms => terms.submission

def OfferExerciseAction.quantity : OfferExerciseAction → Quantity
  | submitted _ _ _ quantity | cancelled _ quantity => quantity
  | settled terms => terms.quantity

/-! ### Opening positions -/

inductive Certainty where
  | known | estimated
  deriving DecidableEq, Repr

inductive DateCertainty where
  | known | estimated | unknown
  deriving DecidableEq, Repr

inductive BasisCertainty where
  | documented | estimated | unknown
  deriving DecidableEq, Repr

inductive Tristate where
  | yes | no | unknown
  deriving DecidableEq, Repr

inductive Knowledge where
  | known | unknown
  deriving DecidableEq, Repr

structure OpeningAssertions where
  quantity : Certainty := .estimated
  acquisitionDate : Option Date := none
  acquisitionDateCertainty : DateCertainty := .unknown
  taxBasis : BasisCertainty := .unknown
  basisCurrency : Option CurrencyCode := none
  basisRate : Option Dec := none
  feesIncluded : Tristate := .unknown
  ldvEligibility : Knowledge := .unknown
  priorCorporateActions : Knowledge := .unknown
  deriving DecidableEq, Repr

/-! ### The event kinds -/

inductive TradeSide where
  | buy | sell
  deriving DecidableEq, Repr

/-- The terms of a purchase or a sale. `basisFee` is not part of the cash leg. -/
structure Trade where
  side : TradeSide
  instrument : InstrumentId
  quantity : Quantity
  gross : Money
  fee : Option Money
  basisFee : Option Money
  basisFeeExact : Option CalcMoney
  accruedInterest : Option Money
  deriving DecidableEq, Repr

inductive IncomeKind where
  | coupon | dividend | depositInterest
  deriving DecidableEq, Repr

inductive FeeOrigin where
  | brokerage | depositary | accountMaintenance | marginInterest | other
  deriving DecidableEq, Repr

inductive TaxOrigin where
  | withheldAtSource | selfPaid
  deriving DecidableEq, Repr

inductive PriceQuality where
  | executable | previousClose | carriedForward | stale | ownerEstimate
  deriving DecidableEq, Repr

inductive EventKind where
  | trade (terms : Trade)
  | cashIn (amount : Money)
  | cashOut (amount : Money)
  | refund (amount : Money)
  | cashTransfer (transferId : TransferId) («from» «to» : AccountId) (amount : Money)
  | ownAccountMovement (amount : Money)
  | unresolvedOwnAccountMovement (amount : Money)
  | income (instrument : Option InstrumentId) (gross : Money) (kind : Option IncomeKind)
  | fee (amount : Money) (origin : FeeOrigin)
  | tax (amount : Money) (origin : TaxOrigin)
  | openingPosition (instrument : InstrumentId) (quantity : Quantity) (costBasis : Option Money)
      (assertions : OpeningAssertions)
  | openingCash (amount : Money)
  | statedSecuritiesValue (amount : Money)
  | valuation (instrument : InstrumentId) (price : Dec) (currency : CurrencyCode) (quality : PriceQuality)
  | controlAssertion (period : AssertionPeriod) (claim : ControlClaim)
  | importCoverageGap (period : AssertionPeriod) (dimensions : Finset Dimension) (refused : Nat)
      (rows : List RefusedRow)
  | corporateAction (action : CorporateAction)
  | offerExercise (action : OfferExerciseAction)
  deriving DecidableEq

def EventKind.discriminant : EventKind → String
  | trade .. => "trade"
  | cashIn .. => "cash_in"
  | cashOut .. => "cash_out"
  | refund .. => "refund"
  | cashTransfer .. => "cash_transfer"
  | ownAccountMovement .. => "own_account_movement"
  | unresolvedOwnAccountMovement .. => "unresolved_own_account_movement"
  | income .. => "income"
  | fee .. => "fee"
  | tax .. => "tax"
  | openingPosition .. => "opening_position"
  | openingCash .. => "opening_cash"
  | statedSecuritiesValue .. => "stated_securities_value"
  | valuation .. => "valuation"
  | controlAssertion .. => "control_assertion"
  | importCoverageGap .. => "import_coverage_gap"
  | corporateAction .. => "corporate_action"
  | offerExercise .. => "offer_exercise"

/-- Where the money of an event comes from and goes to. -/
inductive FlowEndpoints where
  | inboundFromOutside
  | outboundToOutside
  | betweenAccounts («from» «to» : AccountId)
  | ownAccountUnnamed
  | withinAccount
  deriving DecidableEq, Repr

def EventKind.flowEndpoints : EventKind → FlowEndpoints
  | cashIn .. => .inboundFromOutside
  | cashOut .. => .outboundToOutside
  | refund .. => .inboundFromOutside
  | cashTransfer _ source target _ => .betweenAccounts source target
  | ownAccountMovement .. | unresolvedOwnAccountMovement .. => .ownAccountUnnamed
  | trade .. | income .. | fee .. | tax .. | openingPosition .. | openingCash .. | statedSecuritiesValue ..
  | valuation .. | importCoverageGap .. | controlAssertion .. | corporateAction .. | offerExercise .. =>
    .withinAccount

end Iaam
