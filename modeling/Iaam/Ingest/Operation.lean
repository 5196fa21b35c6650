import Iaam.Ingest.Classification

/-! The submitted operation and the event it becomes (`operation.rs`): amounts come positive, the kind of the
operation decides the sign and the legs. -/

namespace Iaam
open Outcome

structure OperationDates where
  trade : Option Date
  settled : Option Date
  cashPosted : Option Date
  paid : Option Date
  deriving DecidableEq, Repr

def OperationDates.toEventDates (d : OperationDates) : EventDates :=
  ⟨d.trade, d.settled, d.cashPosted, none, d.paid, none⟩

/-- What happened. An amount in minor units is a 64-bit integer of either sign, as it was sent. -/
inductive OperationKind where
  | deposit (amountMinor : PostedMinor) (currency : CurrencyCode)
  | withdrawal (amountMinor : PostedMinor) (currency : CurrencyCode)
  | refund (amountMinor : PostedMinor) (currency : CurrencyCode)
  | transfer («to» : AccountId) (amountMinor : PostedMinor) (currency : CurrencyCode)
  | ownAccountMovement (movement : Option Classification.Movement) (amountMinor : PostedMinor) (currency : CurrencyCode)
  | buy (instrument : InstrumentId) (custody : Option CustodyId) (quantity : Dec) (grossMinor : PostedMinor)
      (feeMinor : Option PostedMinor) (basisFee : Option CalcMoney) (accruedInterestMinor : Option PostedMinor)
      (currency : CurrencyCode)
  | sell (instrument : InstrumentId) (custody : Option CustodyId) (quantity : Dec) (grossMinor : PostedMinor)
      (feeMinor : Option PostedMinor) (basisFee : Option CalcMoney) (accruedInterestMinor : Option PostedMinor)
      (currency : CurrencyCode)
  | income (instrument : Option InstrumentId) (grossMinor : PostedMinor) (currency : CurrencyCode)
      (kind : Option IncomeKind)
  | fee (amountMinor : PostedMinor) (currency : CurrencyCode) (origin : FeeOrigin)
  | tax (amountMinor : PostedMinor) (currency : CurrencyCode) (origin : TaxOrigin)
  | openingCash (amountMinor : PostedMinor) (currency : CurrencyCode)
  | statedSecuritiesValue (amountMinor : PostedMinor) (currency : CurrencyCode)
  | openingPosition (instrument : InstrumentId) (custody : Option CustodyId) (quantity : Dec)
      (costBasisMinor : Option PostedMinor) (currency : CurrencyCode) (assertions : Option OpeningAssertions)
  | valuation (instrument : InstrumentId) (price : Dec) (currency : CurrencyCode) (quality : PriceQuality)
  deriving DecidableEq

structure SubmittedOperation where
  account : AccountId
  kind : OperationKind
  dates : OperationDates
  sourceTime : Option Time
  idempotencyKey : Option String
  sourceOperationId : Option String
  sourcePositionId : Option String
  sourceCategory : Option String
  ownerCategory : Option String
  sourceCode : Option String
  sourceKind : Option String
  description : Option String
  counterparty : Option String
  deriving DecidableEq

/-- Why a row was rejected: the field, what was expected of it, and what came. -/
structure Rejection where
  field : String
  expected : String
  actual : String
  deriving DecidableEq, Repr

/-- `Display` of a decimal of minor units: the sign, the whole part, and all the places of the currency. -/
def Money.text (m : Money) : String :=
  let places := m.currency.minorUnits
  let sign := if m.amount.raw < 0 then "-" else ""
  let digits := ((Nat.toDigits 10 m.amount.raw.natAbs).leftpad (places + 1) '0')
  let whole := digits.length - places
  sign ++ String.ofList (digits.take whole) ++ "." ++ String.ofList (digits.drop whole)

def NumericError.text : NumericError → String
  | zeroDenominator => "denominator is zero"
  | divisionByZero => "division by zero"
  | overflow => "overflow during exact computation"
  | scaleTooLarge scale max => "scale " ++ toString scale ++ " exceeds the supported maximum " ++ toString max

/-- `Debug` of a currency code. -/
def CurrencyCode.debug : CurrencyCode → String
  | rub => "Rub" | usd => "Usd" | eur => "Eur" | cny => "Cny" | xau => "Xau"

def MoneyError.text : MoneyError → String
  | currencyMismatch left right => "currencies cannot be mixed: " ++ left.debug ++ " and " ++ right.debug
  | overflow => "amount addition overflow"
  | numeric e => e.text

def Dec.abs (d : Dec) : Dec := ⟨|d.val|, by rw [abs_abs]; exact d.inRange⟩

def Leg.securityWithoutCustody (account : AccountId) (instrument : InstrumentId) (quantity : Quantity) : Leg :=
  ⟨.securityQuantity, account, none, some instrument, none, some quantity⟩

namespace Operation

/-- An outcome of `build`: a rejection, or a panic of an unchecked operation. -/
abbrev Built (α : Type) := Result Rejection α

def reject {α : Type} (field expected actual : String) : Built α := .error (.error ⟨field, expected, actual⟩)

def positive (value : PostedMinor) (field : String) (currency : CurrencyCode) : Built PostedMinor :=
  if 0 < value.raw then .ok value else reject field "positive value" (Money.text ⟨value, currency⟩)

/-- `a + b`, `a - b` and `-a` on 64-bit integers: a result out of range panics. -/
def addMinor (a b : PostedMinor) : Built PostedMinor := orPanic (a.checkedAdd b)
def subMinor (a b : PostedMinor) : Built PostedMinor := orPanic (a.checkedSub b)
def negMinor (a : PostedMinor) : Built PostedMinor := orPanic a.checkedNeg

/-- The positive amount of an operation, as money. -/
def positiveMoney (value : PostedMinor) (field : String) (currency : CurrencyCode) : Built Money := do
  let value ← positive value field currency
  return ⟨value, currency⟩

/-- The positive amount of an operation that takes money out, with the sign that records it. -/
def negatedMoney (value : PostedMinor) (currency : CurrencyCode) : Built Money := do
  let value ← positive value "amount" currency
  let negated ← negMinor value
  return ⟨negated, currency⟩

def securityLeg (account : AccountId) (custody : Option CustodyId) (instrument : InstrumentId)
    (quantity : Quantity) : Leg :=
  match custody with
  | some custody => .security account custody instrument quantity
  | none => .securityWithoutCustody account instrument quantity

def optionalMoney (field : String) (value : Option PostedMinor) (currency : CurrencyCode) : Built (Option Money) :=
  match value with
  | none => .ok none
  | some minor => do
    let money ← positiveMoney minor field currency
    return some money

def feeMoney : Option PostedMinor → CurrencyCode → Built (Option Money) := optionalMoney "fee"

/-- Accrued interest may be reported as zero, unlike a fee. -/
def accruedInterestMoney (value : Option PostedMinor) (currency : CurrencyCode) : Built (Option Money) :=
  match value with
  | none => .ok none
  | some minor =>
    if 0 ≤ minor.raw then .ok (some ⟨minor, currency⟩)
    else reject "accrued_interest" "non-negative value" (Money.text ⟨minor, currency⟩)

/-- The posted value of a fee that belongs to the basis. -/
def basisFeeMoney (value : Option CalcMoney) (currency : CurrencyCode) : Built (Option Money) :=
  match value with
  | none => .ok none
  | some value =>
    if value.currency ≠ currency then
      reject "basis_fee" ("currency " ++ currency.code) value.currency.code
    else
      match (⟨value.value.abs, currency⟩ : CalcMoney).roundedMinor with
      | .ok amount => .ok (some ⟨amount, currency⟩)
      | .error e => reject "basis_fee" "representable rounded amount" e.text

/-- What a purchase and a sale state alike: the terms, and the settlement before the side signs it. -/
def tradeTerms (side : TradeSide) (instrument : InstrumentId) (quantity : Dec) (grossMinor : PostedMinor)
    (feeMinor : Option PostedMinor) (basisFee : Option CalcMoney) (accruedInterestMinor : Option PostedMinor)
    (currency : CurrencyCode) : Built (Trade × PostedMinor) := do
  let gross ← positiveMoney grossMinor "amount" currency
  let fee ← feeMoney feeMinor currency
  let basisFeeExact := basisFee.map fun value => (⟨value.value.abs, value.currency⟩ : CalcMoney)
  let basisFee ← basisFeeMoney basisFeeExact currency
  let accrued ← accruedInterestMoney accruedInterestMinor currency
  let withInterest ← addMinor gross.amount ((accrued.map Money.amount).getD .zero)
  let settlement ← match side with
    | .buy => addMinor withInterest ((fee.map Money.amount).getD .zero)
    | .sell => subMinor withInterest ((fee.map Money.amount).getD .zero)
  return (⟨side, instrument, quantity, gross, fee, basisFee, basisFeeExact, accrued⟩, settlement)

/-- The kind and the legs of an operation on its account. `transferId` is the identifier drawn for a transfer. -/
def build (transferId : TransferId) (account : AccountId) : OperationKind → Built (EventKind × List Leg)
  | .deposit amountMinor currency => do
    let amount ← positiveMoney amountMinor "amount" currency
    return (.cashIn amount, [.cash account amount])
  | .withdrawal amountMinor currency => do
    let amount ← negatedMoney amountMinor currency
    return (.cashOut amount, [.cash account amount])
  | .refund amountMinor currency => do
    let amount ← positiveMoney amountMinor "amount" currency
    return (.refund amount, [.cash account amount])
  | .transfer target amountMinor currency =>
    if target = account then reject "to" "an account different from the operation account" target.text
    else do
      let amount ← positiveMoney amountMinor "amount" currency
      match amount.checkedNegate with
      | .error e => reject "amount" "representable amount" e.text
      | .ok outgoing =>
        return (.cashTransfer transferId account target amount, [.cash account outgoing, .cash target amount])
  | .ownAccountMovement movement amountMinor currency => do
    let magnitude ← positive amountMinor "amount" currency
    match movement with
    | some .out =>
      let negated ← negMinor magnitude
      return (.ownAccountMovement ⟨negated, currency⟩, [.cash account ⟨negated, currency⟩])
    | some .in => return (.ownAccountMovement ⟨magnitude, currency⟩, [.cash account ⟨magnitude, currency⟩])
    | none => return (.unresolvedOwnAccountMovement ⟨magnitude, currency⟩, [])
  | .buy instrument custody quantity grossMinor feeMinor basisFee accruedInterestMinor currency => do
    let (terms, settlement) ←
      tradeTerms .buy instrument quantity grossMinor feeMinor basisFee accruedInterestMinor currency
    let paid ← negMinor settlement
    return (.trade terms, [.cash account ⟨paid, currency⟩, securityLeg account custody instrument quantity])
  | .sell instrument custody quantity grossMinor feeMinor basisFee accruedInterestMinor currency => do
    let (terms, settlement) ←
      tradeTerms .sell instrument quantity grossMinor feeMinor basisFee accruedInterestMinor currency
    match quantity.checkedNeg with
    | .error e => reject "quantity" "representable quantity" e.text
    | .ok sold =>
      return (.trade terms, [.cash account ⟨settlement, currency⟩, securityLeg account custody instrument sold])
  | .income instrument grossMinor currency kind => do
    let gross ← positiveMoney grossMinor "amount" currency
    return (.income instrument gross kind, [.cash account gross])
  | .fee amountMinor currency origin => do
    let amount ← negatedMoney amountMinor currency
    return (.fee amount origin, [.fee account amount])
  | .tax amountMinor currency origin => do
    let amount ← negatedMoney amountMinor currency
    return (.tax amount origin, [.tax account amount])
  | .openingCash amountMinor currency =>
    .ok (.openingCash ⟨amountMinor, currency⟩, [.cash account ⟨amountMinor, currency⟩])
  | .statedSecuritiesValue amountMinor currency => do
    let amount ← positiveMoney amountMinor "amount" currency
    return (.statedSecuritiesValue amount, [])
  | .openingPosition instrument custody quantity costBasisMinor currency assertions => do
    let costBasis ← optionalMoney "cost_basis" costBasisMinor currency
    return (.openingPosition instrument quantity costBasis (assertions.getD {}),
      [securityLeg account custody instrument quantity])
  | .valuation instrument price currency quality => .ok (.valuation instrument price currency quality, [])

/-- Who owns what is normalised, which source it came from, and what read it. -/
structure NormalizationContext where
  owner : OwnerId
  source : SourceId
  parserVersion : String
  deriving DecidableEq, Repr

/-- What normalisation draws at random or takes from a hash: the identifiers of the event and of a transfer,
    and the fingerprint of the operation. -/
structure Fresh where
  event : EventId
  transfer : TransferId
  fingerprint : SubmittedOperation → String

/-- The journal event of an operation. The sequence is temporary: the store assigns the final one. -/
def normalize (fresh : Fresh) (operation : SubmittedOperation) (context : NormalizationContext) : Built Event := do
  let dates := operation.dates.toEventDates
  match dates.effectiveDate with
  | none => reject "dates" "at least one date: trade, settled, cash_posted, or paid" "none"
  | some day =>
    let (kind, legs) ← build fresh.transfer operation.account operation.kind
    return {
      id := fresh.event
      owner := context.owner
      account := operation.account
      kind
      dates
      order := ⟨day, operation.sourceTime, 1⟩
      legs
      provenance := {
        source := context.source
        rawHash := fresh.fingerprint operation
        parserVersion := context.parserVersion
        sourceOperationId := operation.sourceOperationId
        sourcePositionId := operation.sourcePositionId
        sourceCategory := operation.sourceCategory
        sourceKind := operation.sourceKind
        ownerCategory := operation.ownerCategory
        sourceCode := operation.sourceCode
        description := operation.description
        counterparty := operation.counterparty }
      relation := .none
      confidence := .known
      idempotencyKey := operation.idempotencyKey }

end Operation
end Iaam
