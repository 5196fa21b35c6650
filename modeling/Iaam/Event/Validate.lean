import Iaam.Event.Envelope

/-! The structural gate of the journal (`event/mod.rs`, `event/legs.rs`): each kind of event has its own
shape, and an event of another shape is refused with the reason. -/

namespace Iaam

/-- A refused value, as the error shows it. -/
inductive Shown where
  | integer (n : Int)
  | decimal (d : Dec)
  | money (m : Money)
  | period (p : AssertionPeriod)
  | refusedCount (declared listed : Nat)
  deriving DecidableEq, Repr

inductive EventValidationError where
  | legCount (kind expected : String) (found : Nat)
  | wrongSign (kind : String) (amount : Int) (currency : CurrencyCode)
  | amountMismatch (kind : String) (legs declared : Int)
  | wrongAccount (expected : AccountId)
  | transferResidual (residual : Int)
  | transferToSelf (account : AccountId)
  | transferAccountMismatch (account «from» «to» : AccountId)
  | legDoesNotMatchEvent (kind field : String)
  | basisFeePresenceMismatch (kind : String)
  | basisFeeAmountMismatch (kind : String) (posted exact : Int)
  | emptySet (kind field : String)
  | dimensionsMismatch (kind field : String) (expected actual : Finset Dimension)
  | nonPositive (kind field : String) (value : Shown)
  | unexpectedLeg (event : String) (expected found : Nat)
  | missingLeg (event : String) (kind : LegKind) (expected found : Nat)
  | legMismatch (event : String) (kind : LegKind) (field : String)
  | numeric (e : NumericError)
  | money (e : MoneyError)
  deriving DecidableEq

abbrev Validated (α : Type) := Except EventValidationError α

inductive Sign where
  | positive | negative | any
  deriving DecidableEq, Repr

/-! ### Expected legs -/

/-- What one leg must be. A field that is not set is not checked. -/
structure LegExpectation where
  kind : LegKind
  account : AccountId
  instrument : Option InstrumentId
  custody : Option CustodyId
  money : Option Money
  quantity : Option Quantity
  deriving DecidableEq, Repr

def principalLeg (account : AccountId) (instrument : InstrumentId) (money : Money) : LegExpectation :=
  ⟨.principal, account, some instrument, none, some money, none⟩

def securityLeg (account : AccountId) (custody : CustodyId) (instrument : InstrumentId) (quantity : Quantity) :
    LegExpectation :=
  ⟨.securityQuantity, account, some instrument, some custody, none, some quantity⟩

def cashLeg (account : AccountId) (money : Money) : LegExpectation :=
  ⟨.cash, account, none, none, some money, none⟩

/-- A set expectation must match, an empty field included. -/
def differs {α : Type} [DecidableEq α] (actual wanted : Option α) : Bool :=
  match wanted with
  | some w => actual ≠ some w
  | none => false

def firstDifference (leg : Leg) (expectation : LegExpectation) : Option String :=
  if leg.kind ≠ expectation.kind then some "kind"
  else if leg.account ≠ expectation.account then some "account"
  else if differs leg.instrument expectation.instrument then some "instrument"
  else if differs leg.custody expectation.custody then some "custody"
  else if differs leg.money expectation.money then some "money"
  else if differs leg.quantity expectation.quantity then some "quantity"
  else none

def legMatches (leg : Leg) (expectation : LegExpectation) : Bool := (firstDifference leg expectation).isNone

/-- Backtracking search for a leg of its own for each expectation. A mark set for a choice that fails is
    taken back, so the marks travel as a value. -/
def assign (legs : List Leg) : List LegExpectation → List Bool → Bool
  | [], _ => true
  | first :: rest, taken =>
    legs.zipIdx.any fun (leg, index) =>
      !taken.getD index false && legMatches leg first && assign legs rest (taken.set index true)

/-- The complaint about the first expectation that no leg meets; with none, about the number of legs. -/
def diagnose (legs : List Leg) (name : String) (expected : List LegExpectation) : EventValidationError :=
  match expected.find? fun x => !legs.any fun leg => legMatches leg x with
  | some x =>
    match (legs.filter fun leg => leg.kind = x.kind).findSome? fun leg => firstDifference leg x with
    | some field => .legMismatch name x.kind field
    | none => .missingLeg name x.kind expected.length legs.length
  | none =>
    match expected.getLast? with
    | some last =>
      if legs.length < expected.length then .missingLeg name last.kind expected.length legs.length
      else .unexpectedLeg name expected.length legs.length
    | none => .unexpectedLeg name expected.length legs.length

/-- Exactly the listed legs, in any order. -/
def expectLegs (legs : List Leg) (name : String) (expected : List LegExpectation) : Validated Unit :=
  if legs.length = expected.length ∧ assign legs expected (List.replicate legs.length false) then .ok ()
  else .error (diagnose legs name expected)

/-! ### Checks shared by the kinds -/

def requirePositive (name field : String) (value : Int) : Validated Unit :=
  if value > 0 then .ok () else .error (.nonPositive name field (.integer value))

def requirePositiveQuantity (name field : String) (quantity : Quantity) : Validated Unit :=
  if quantity.isPositive then .ok () else .error (.nonPositive name field (.decimal quantity))

def requirePositivePerUnit (name field : String) (amount : PerUnitAmount) : Validated Unit :=
  if amount.value.isPositive then .ok () else .error (.nonPositive name field (.decimal amount.value))

def requireOwnAccount (leg event : AccountId) : Validated Unit :=
  if leg = event then .ok () else .error (.wrongAccount event)

def requireSameInstrument (name : String) (leg : Option InstrumentId) (declared : InstrumentId) : Validated Unit :=
  if leg = some declared then .ok () else .error (.legDoesNotMatchEvent name "instrument")

def requireSameQuantity (name : String) (leg : Option Quantity) (declared : Quantity) : Validated Unit :=
  if leg = some declared then .ok () else .error (.legDoesNotMatchEvent name "quantity")

def requireEqual (name : String) (leg declared : Money) : Validated Unit :=
  if leg.currency ≠ declared.currency then .error (.money (.currencyMismatch leg.currency declared.currency))
  else if leg.amount.raw ≠ declared.amount.raw then
    .error (.amountMismatch name leg.amount.raw declared.amount.raw)
  else .ok ()

def requireNoLegs (name : String) (legs : List Leg) : Validated Unit :=
  if legs.isEmpty then .ok () else .error (.legCount name "no legs" legs.length)

def legMoney (name : String) (leg : Leg) : Validated Money :=
  match leg.money with
  | some money => .ok money
  | none => .error (.legCount name "leg with the specified amount" 0)

/-- The only leg of a list. -/
def singleLeg (name : String) (legs : List Leg) (expected : String) : Validated Leg :=
  match legs with
  | [leg] => .ok leg
  | _ => .error (.legCount name expected legs.length)

def singleLegMoney (name : String) (legs : List Leg) (expected : String) : Validated Money := do
  let leg ← singleLeg name legs expected
  legMoney name leg

/-- What the counterparty pays or is paid: principal and accrued interest, then the fee. -/
def tradeSettlement (side : TradeSide) (gross : Money) (fee accruedInterest : Option Money) :
    Except MoneyError Money := do
  let settlement ← gross.withOptional Money.tryAdd accruedInterest
  match side with
  | .buy =>
    let withFee ← settlement.withOptional Money.tryAdd fee
    withFee.checkedNegate
  | .sell => settlement.withOptional Money.trySub fee

/-- A purchase increases the position, a sale decreases it. -/
def tradeQuantity (side : TradeSide) (quantity : Quantity) : Except NumericError Quantity :=
  match side with
  | .buy => .ok quantity
  | .sell => quantity.checkedNeg

def requireConversionRatio (name : String) (ratio : Dec) (quantityIn quantityOut : Quantity)
    (fractional : FractionalTreatment) : Validated Unit := do
  let implied ← (ratio.checkedMul quantityIn).mapError .numeric
  let expected := match fractional with
    | .notApplicable => implied
    | .cashCompensated | .roundedDown => implied.floor
  if quantityOut = expected then .ok () else .error (.legDoesNotMatchEvent name "ratio")

def requireFractionCompensation (name : String) (fractional : FractionalTreatment) (compensation : Option Money) :
    Validated Unit :=
  let expected := match fractional with
    | .cashCompensated => true
    | .roundedDown | .notApplicable => false
  if compensation.isSome = expected then .ok () else .error (.legDoesNotMatchEvent name "compensation")

/-! ### The shape of each kind -/

namespace Event

def legsOfKind (e : Event) (kind : LegKind) : List Leg := e.legs.filter fun leg => leg.kind = kind

def cashLegs (e : Event) : List Leg := e.legsOfKind .cash
def securityLegs (e : Event) : List Leg := e.legsOfKind .securityQuantity

def expectSingleCash (e : Event) (name : String) (declared : Money) (sign : Sign) : Validated Unit := do
  let money ← singleLegMoney name e.cashLegs "exactly one monetary leg"
  let raw := money.amount.raw
  let ok := match sign with
    | .positive => decide (raw > 0)
    | .negative => decide (raw < 0)
    | .any => true
  if !ok then .error (.wrongSign name raw money.currency)
  else requireEqual name money declared

/-- One negative leg of the kind, equal to the declared amount: the shape of a fee and of a tax. -/
def expectSingleCharge (e : Event) (kind : LegKind) (expected name : String) (declared : Money) :
    Validated Unit := do
  let money ← singleLegMoney name (e.legsOfKind kind) expected
  if money.amount.raw ≥ 0 then .error (.wrongSign name money.amount.raw money.currency)
  else requireEqual name money declared

def validateFee (e : Event) : String → Money → Validated Unit := e.expectSingleCharge .fee "exactly one fee leg"
def validateTax (e : Event) : String → Money → Validated Unit := e.expectSingleCharge .tax "exactly one tax leg"

def validateOwnAccountMovement (e : Event) (name : String) (declared : Money) : Validated Unit := do
  if declared.amount.raw = 0 then .error (.wrongSign name 0 declared.currency)
  else
    e.expectSingleCash name declared .any
    match e.cashLegs.head? with
    | none => .error (.legCount name "exactly one monetary leg" 0)
    | some leg => if leg.account ≠ e.account then .error (.wrongAccount e.account) else .ok ()

def validateUnresolvedOwnAccountMovement (e : Event) (name : String) (declared : Money) : Validated Unit := do
  requireNoLegs name e.legs
  requirePositive name "amount" declared.amount.raw

def validateTransfer (e : Event) (name : String) (source target : AccountId) (declared : Money) :
    Validated Unit := do
  if source = target then .error (.transferToSelf source)
  else if e.account ≠ source ∧ e.account ≠ target then
    .error (.transferAccountMismatch e.account source target)
  else if e.cashLegs.length ≠ 2 then
    .error (.legCount name "exactly two monetary legs" e.cashLegs.length)
  else
    match e.cashLegs.find? fun leg => leg.account = source, e.cashLegs.find? fun leg => leg.account = target with
    | none, _ => .error (.wrongAccount source)
    | some _, none => .error (.wrongAccount target)
    | some out, some inn =>
      let outMoney ← legMoney name out
      let inMoney ← legMoney name inn
      if outMoney.currency ≠ inMoney.currency then
        .error (.money (.currencyMismatch outMoney.currency inMoney.currency))
      else if outMoney.amount.raw ≥ 0 then
        .error (.wrongSign name outMoney.amount.raw outMoney.currency)
      else if inMoney.amount.raw ≤ 0 then
        .error (.wrongSign name inMoney.amount.raw inMoney.currency)
      else
        requirePositive name "amount" declared.amount.raw
        let residual ← (outMoney.tryAdd inMoney).mapError .money
        if residual.isZero then requireEqual name inMoney declared
        else .error (.transferResidual residual.amount.raw)

def requireSameCurrency (l r : CurrencyCode) : Validated Unit :=
  if l ≠ r then .error (.money (.currencyMismatch l r)) else .ok ()

/-- The fee that enters the basis, when it is there: positive, and in the currency of the trade. -/
def requirePostedFee (name : String) (terms : Trade) : Validated Unit :=
  match terms.basisFee with
  | some basisFee => do
    requirePositive name "basis_fee" basisFee.amount.raw
    requireSameCurrency basisFee.currency terms.gross.currency
  | none => .ok ()

def requireExactFee (terms : Trade) : Validated Unit :=
  match terms.basisFeeExact with
  | some exact => requireSameCurrency exact.currency terms.gross.currency
  | none => .ok ()

/-- The posted fee and its exact value come together, and the exact value rounds to the posted one. -/
def requireFeesAgree (name : String) (terms : Trade) : Validated Unit :=
  match terms.basisFee, terms.basisFeeExact with
  | none, none => .ok ()
  | some _, none | none, some _ => .error (.basisFeePresenceMismatch name)
  | some basisFee, some exact => do
    let exactRounded ← exact.roundedMinor.mapError .money
    if exactRounded ≠ basisFee.amount then
      .error (.basisFeeAmountMismatch name basisFee.amount.raw exactRounded.raw)
    else .ok ()

def validateTrade (e : Event) (name : String) (terms : Trade) : Validated Unit := do
  requirePositive name "gross" terms.gross.amount.raw
  requirePositiveQuantity name "quantity" terms.quantity
  requirePostedFee name terms
  requireExactFee terms
  requireFeesAgree name terms
  let cash ← singleLeg name e.cashLegs "exactly one monetary leg"
  let cashMoney ← legMoney name cash
  requireOwnAccount cash.account e.account
  let expected ← (tradeSettlement terms.side terms.gross terms.fee terms.accruedInterest).mapError .money
  requireEqual name cashMoney expected
  let leg ← singleLeg name e.securityLegs "exactly one security leg"
  requireOwnAccount leg.account e.account
  requireSameInstrument name leg.instrument terms.instrument
  let expectedQuantity ← (tradeQuantity terms.side terms.quantity).mapError .numeric
  requireSameQuantity name leg.quantity expectedQuantity

def validateCorporateAction (e : Event) (name : String) : CorporateAction → Validated Unit
  | .partialRedemption terms _ => do
    requirePositive name "compensation" terms.compensation.amount.raw
    requirePositiveQuantity name "quantity" terms.quantity
    requirePositivePerUnit name "principal_returned_per_unit" terms.principalReturnedPerUnit
    expectLegs e.legs name [principalLeg e.account terms.instrument terms.compensation]
  | .redemption terms => do
    requirePositive name "compensation" terms.compensation.amount.raw
    requirePositiveQuantity name "quantity" terms.quantity
    let negated ← terms.quantity.checkedNeg.mapError .numeric
    expectLegs e.legs name
      [principalLeg e.account terms.instrument terms.compensation,
        securityLeg e.account terms.custody terms.instrument negated]
  | .conversion terms => do
    requirePositiveQuantity name "quantity_in" terms.quantityIn
    requirePositiveQuantity name "quantity_out" terms.quantityOut
    requirePositiveQuantity name "ratio" terms.ratio
    requireConversionRatio name terms.ratio terms.quantityIn terms.quantityOut terms.fractional
    requireFractionCompensation name terms.fractional terms.compensation
    let negated ← terms.quantityIn.checkedNeg.mapError .numeric
    let compensation := match terms.compensation with
      | some money => [cashLeg e.account money]
      | none => []
    expectLegs e.legs name
      ([securityLeg e.account terms.custody terms.predecessor negated,
        securityLeg e.account terms.custody terms.successor terms.quantityOut] ++ compensation)

def validateOfferExercise (e : Event) (name : String) (action : OfferExerciseAction) : Validated Unit := do
  requirePositiveQuantity name "quantity" action.quantity
  match action with
  | .submitted .. | .cancelled .. => expectLegs e.legs name []
  | .settled terms =>
    requirePositive name "gross" terms.gross.amount.raw
    let settlement ← (tradeSettlement .sell terms.gross terms.fee terms.accruedInterest).mapError .money
    let negated ← terms.quantity.checkedNeg.mapError .numeric
    expectLegs e.legs name
      [cashLeg e.account settlement, securityLeg e.account terms.custody terms.instrument negated]

def validateOpeningPosition (e : Event) (name : String) (instrument : InstrumentId) (quantity : Quantity) :
    Validated Unit := do
  requirePositiveQuantity name "quantity" quantity
  if !e.cashLegs.isEmpty then .error (.legCount name "no monetary legs" e.cashLegs.length)
  else
    let leg ← singleLeg name e.securityLegs "exactly one security leg"
    requireOwnAccount leg.account e.account
    requireSameInstrument name leg.instrument instrument
    requireSameQuantity name leg.quantity quantity

def validateStatedSecuritiesValue (e : Event) (name : String) (amount : Money) : Validated Unit := do
  if amount.amount.raw ≤ 0 then .error (.nonPositive name "amount" (.money amount))
  else requireNoLegs name e.legs

def validateValuation (e : Event) (name : String) (price : Dec) : Validated Unit := do
  if !price.isPositive then .error (.nonPositive name "price" (.decimal price))
  else requireNoLegs name e.legs

def requireWellFormed (name : String) (period : AssertionPeriod) : Validated Unit :=
  if period.isWellFormed then .ok () else .error (.nonPositive name "period" (.period period))

/-- A quantity of securities may not be negative; a cash balance may. -/
def requireQuantityNotNegative (name : String) : ControlClaim → Validated Unit
  | .positionQuantity _ quantity _ =>
    if quantity.isNegative then .error (.nonPositive name "quantity" (.decimal quantity)) else .ok ()
  | _ => .ok ()

def requireTotalNotNegative (name : String) (claim : ControlClaim) : Validated Unit :=
  match claim.nonNegativeField with
  | some (field, value) => if value < 0 then .error (.nonPositive name field (.integer value)) else .ok ()
  | none => .ok ()

def validateControlAssertion (e : Event) (name : String) (period : AssertionPeriod) (claim : ControlClaim) :
    Validated Unit := do
  requireWellFormed name period
  requireQuantityNotNegative name claim
  requireTotalNotNegative name claim
  requireNoLegs name e.legs

def validateImportCoverageGap (e : Event) (name : String) (period : AssertionPeriod)
    (dimensions : Finset Dimension) (refused : Nat) (rows : List RefusedRow) : Validated Unit := do
  requireWellFormed name period
  if refused < 1 then .error (.nonPositive name "refused" (.integer refused))
  else if dimensions = ∅ then .error (.emptySet name "dimensions")
  else
    requireNoLegs name e.legs
    let union := rows.foldl (fun acc row => acc ∪ row.dimensions) ∅
    if rows.isEmpty then .error (.emptySet name "rows")
    else if rows.length ≠ refused then .error (.nonPositive name "refused" (.refusedCount refused rows.length))
    else if union ≠ dimensions then .error (.dimensionsMismatch name "rows" dimensions union)
    else .ok ()

def validateStructure (e : Event) : Validated Unit :=
  let name := e.kind.discriminant
  match e.kind with
  | .cashIn amount => e.expectSingleCash name amount .positive
  | .cashOut amount => e.expectSingleCash name amount .negative
  | .refund amount => e.expectSingleCash name amount .positive
  | .openingCash amount => e.expectSingleCash name amount .any
  | .statedSecuritiesValue amount => e.validateStatedSecuritiesValue name amount
  | .income _ gross _ => e.expectSingleCash name gross .positive
  | .fee amount _ => e.validateFee name amount
  | .tax amount _ => e.validateTax name amount
  | .ownAccountMovement amount => e.validateOwnAccountMovement name amount
  | .unresolvedOwnAccountMovement amount => e.validateUnresolvedOwnAccountMovement name amount
  | .cashTransfer _ source target amount => e.validateTransfer name source target amount
  | .trade terms => e.validateTrade name terms
  | .openingPosition instrument quantity _ _ => e.validateOpeningPosition name instrument quantity
  | .valuation _ price _ _ => e.validateValuation name price
  | .controlAssertion period claim => e.validateControlAssertion name period claim
  | .importCoverageGap period dimensions refused rows =>
    e.validateImportCoverageGap name period dimensions refused rows
  | .corporateAction action => e.validateCorporateAction name action
  | .offerExercise action => e.validateOfferExercise name action

end Event
end Iaam
