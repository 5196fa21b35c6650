import Iaam.Projection.State
import Iaam.Quotation
import Mathlib.Data.List.Sort

/-! The payments a bond is expected to make (`bond/offer.rs`, `rules/cashflow.rs`): the scenarios that are open to the
holder, and the postings of one of them. -/

namespace Iaam
namespace Bond

/-! ### The schedule -/

/-- A coupon period: the payment date may be moved off a weekend. -/
structure AccrualPeriod where
  periodStart : Date
  paymentDate : Date
  recordDate : Option Date
  couponPerUnit : Option PerUnitAmount
  deriving DecidableEq, Repr

inductive OfferRight where
  | holderPut | holderPutSettled | issuerCall | other
  deriving DecidableEq, Repr

structure OfferWindowTerms where
  window : OfferWindowId
  right : OfferRight
  executionDate : Date
  pricePercent : Option Dec
  deriving DecidableEq, Repr

structure DefaultFlags where
  declared : Bool
  technical : Bool
  deriving DecidableEq, Repr

structure CurrencyRoles where
  denomination : CurrencyCode
  settlement : CurrencyCode
  quote : CurrencyCode
  deriving DecidableEq, Repr

/-- The schedule with what the plan of payments reads of it. -/
structure FullSchedule extends BondSchedule where
  periods : List AccrualPeriod
  offerWindows : List OfferWindowTerms
  defaultFlags : Option DefaultFlags
  currencyRoles : Option CurrencyRoles
  deriving DecidableEq, Repr

/-- A scenario that the owner compares. -/
inductive OfferChoice where
  | holdToMaturity
  | exerciseAtOffer (window : OfferWindowId)
  deriving DecidableEq, Repr

/-- The window is open to the holder at the date. -/
def OfferWindowTerms.open? (asOf : Date) (terms : OfferWindowTerms) : Option OfferChoice :=
  match terms.right with
  | .holderPut =>
    if terms.pricePercent.isSome && decide (asOf ≤ terms.executionDate) then some (.exerciseAtOffer terms.window)
    else none
  | .holderPutSettled | .issuerCall | .other => none

/-- The scenarios available to the owner at a date. -/
def availableChoices (schedule : FullSchedule) (asOf : Date) : List OfferChoice :=
  .holdToMaturity :: schedule.offerWindows.filterMap (OfferWindowTerms.open? asOf)

end Bond

/-! ### The plan of payments -/

namespace Cashflow
open Bond

inductive CashflowError where
  | couponUndetermined (periodStart : Date)
  | principalUnknown
  | scheduleIncomplete (reason : String)
  | scheduleCompletenessUnknown
  | sharesDoNotSumToWhole (total : Dec)
  | issuerDefaultDeclared
  | issuerTechnicalDefault
  | issueTermsUnknown
  | numeric (e : NumericError)
  | currencyFormulaUnknown (roles : Option CurrencyRoles)
  | offerWindowNotExercisable (window : OfferWindowId)
  deriving DecidableEq, Repr

inductive ScheduleTrustError where
  | scheduleIncomplete (reason : String)
  | scheduleCompletenessUnknown
  | issuerDefaultDeclared
  | issueTermsUnknown
  deriving DecidableEq, Repr

def CashflowError.ofTrust : ScheduleTrustError → CashflowError
  | .scheduleIncomplete reason => .scheduleIncomplete reason
  | .scheduleCompletenessUnknown => .scheduleCompletenessUnknown
  | .issuerDefaultDeclared => .issuerDefaultDeclared
  | .issueTermsUnknown => .issueTermsUnknown

structure CashflowInput where
  schedule : FullSchedule
  quantity : Quantity
  choice : OfferChoice
  asOf : Date
  reportCurrency : CurrencyCode

namespace PostingKind

/-- The position in the declaration, which orders the kinds. -/
def index : PostingKind → Nat
  | .coupon => 0 | .principalReturn => 1 | .offerSettlement => 2

instance : LinearOrder PostingKind :=
  LinearOrder.lift' index fun a b h => by cases a <;> cases b <;> first | rfl | simp [index] at h

end PostingKind

/-- A payment that is still expected. -/
structure ExpectedPosting where
  date : Date
  amount : CalcMoney
  kind : PostingKind
  deriving DecidableEq, Repr

/-- A payment that is already due. -/
structure ScheduledPosting where
  date : Date
  kind : PostingKind
  entitlement : Option Date
  deriving DecidableEq, Repr

/-- An absent entitlement comes before any date. -/
def ScheduledPosting.key (p : ScheduledPosting) : Date ×ₗ PostingKind ×ₗ WithBot Date :=
  toLex (p.date, toLex (p.kind, p.entitlement))

structure CashflowPlan where
  postings : List ExpectedPosting
  terminalDate : Date
  past : List ScheduledPosting
  deriving DecidableEq, Repr

def amountForPerUnit (value : PerUnitAmount) (quantity : Quantity) (factor : Dec) : Except CashflowError CalcMoney := do
  let position ← (value.value.checkedMul quantity).mapError .numeric
  let total ← (position.checkedMul factor).mapError .numeric
  return ⟨total, value.currency⟩

/-- The completeness of the schedule, checked before anything is read of it. -/
def complete : ScheduleCompleteness → Except ScheduleTrustError Unit
  | .validated => .ok ()
  | .incomplete reason => .error (.scheduleIncomplete reason)
  | .unknown => .error .scheduleCompletenessUnknown

/-- A technical default delays a payment and does not cancel it. -/
def notDeclared : Option DefaultFlags → Except ScheduleTrustError Unit
  | some flags => if flags.declared then .error .issuerDefaultDeclared else .ok ()
  | none => .error .issueTermsUnknown

/-- The payments already due, without the offers, which are a right of the owner. -/
def historicalSchedulePostings (schedule : FullSchedule) (asOf : Date) : Except ScheduleTrustError (List ScheduledPosting) := do
  complete schedule.completeness
  notDeclared schedule.defaultFlags
  let coupons := (schedule.periods.filter fun period => period.paymentDate ≤ asOf).map fun period =>
    (⟨period.paymentDate, .coupon, period.recordDate⟩ : ScheduledPosting)
  let returns := (schedule.principalReturns.filter fun item => item.repaymentDate ≤ asOf).map fun item =>
    (⟨item.repaymentDate, .principalReturn, none⟩ : ScheduledPosting)
  return (coupons ++ returns).insertionSort fun l r => toLex (l.date, l.kind) ≤ toLex (r.date, r.kind)

/-! ### The checks before a plan -/

/-- Unlike the history, a plan is not made in a technical default either. -/
def notDefaulted : Option DefaultFlags → Except CashflowError Unit
  | some flags =>
    if flags.declared then .error .issuerDefaultDeclared
    else if flags.technical then .error .issuerTechnicalDefault
    else .ok ()
  | none => .error .issueTermsUnknown

/-- One currency everywhere. -/
def oneCurrency (roles : Option CurrencyRoles) (reportCurrency : CurrencyCode) : Except CashflowError Unit :=
  match roles with
  | none => .error (.currencyFormulaUnknown roles)
  | some r =>
    if r.denomination ≠ r.settlement || r.settlement ≠ r.quote || r.quote ≠ reportCurrency then
      .error (.currencyFormulaUnknown roles)
    else .ok ()

/-- The initial principal, in the currency that the coupons have as well. -/
def principalOf (schedule : FullSchedule) (reportCurrency : CurrencyCode) : Except CashflowError PerUnitAmount :=
  match schedule.initialPrincipal with
  | none => .error .principalUnknown
  | some original =>
    if original.currency ≠ reportCurrency ||
        schedule.periods.any (fun period => period.couponPerUnit.any fun coupon => coupon.currency ≠ reportCurrency) then
      .error (.currencyFormulaUnknown schedule.currencyRoles)
    else .ok original

def sharesAreWhole (schedule : FullSchedule) : Except CashflowError Unit := do
  let total ← (Dec.sum (schedule.principalReturns.map Bond.PrincipalReturn.sharePercent)).mapError .numeric
  if total ≠ .hundred then .error (.sharesDoNotSumToWhole total)

/-- The terms of the offer that the scenario exercises: the first ones under the window. -/
def offerOf (schedule : FullSchedule) : OfferChoice → Except CashflowError (Option OfferWindowTerms)
  | .holdToMaturity => .ok none
  | .exerciseAtOffer window =>
    match schedule.offerWindows.find? fun terms => terms.window = window with
    | none => .error (.offerWindowNotExercisable window)
    | some terms =>
      match terms.right with
      | .holderPut =>
        if terms.pricePercent.isNone then .error (.offerWindowNotExercisable window) else .ok (some terms)
      | .holderPutSettled | .issuerCall | .other => .error (.offerWindowNotExercisable window)

/-- The last day of the scenario. -/
def terminalDateOf (schedule : FullSchedule) (asOf : Date) : Option OfferWindowTerms → Date
  | some terms => terms.executionDate
  | none => (schedule.principalReturns.map Bond.PrincipalReturn.repaymentDate).max?.getD asOf

/-- A coupon beyond the last day does not matter. -/
def couponsAreKnown (input : CashflowInput) (terminalDate : Date) : Except CashflowError Unit :=
  match input.schedule.periods.find? fun period =>
    input.asOf < period.paymentDate && period.paymentDate ≤ terminalDate && period.couponPerUnit.isNone with
  | some period => .error (.couponUndetermined period.periodStart)
  | none => .ok ()

/-! ### The postings -/

/-- What is expected and what is already due. -/
abbrev Postings := List ExpectedPosting × List ScheduledPosting

/-- A coupon on the day of the offer is paid as well. -/
def addCoupon (input : CashflowInput) (cutoff : Option Date) (postings : Postings) (period : AccrualPeriod) :
    Except CashflowError Postings :=
  if period.paymentDate ≤ input.asOf then .ok (postings.1, postings.2 ++ [⟨period.paymentDate, .coupon, none⟩])
  else if cutoff.all fun date => period.paymentDate ≤ date then
    match period.couponPerUnit with
    | none => .error (.couponUndetermined period.periodStart)
    | some coupon => do
      let amount ← amountForPerUnit coupon input.quantity .one
      return (postings.1 ++ [⟨period.paymentDate, amount, .coupon⟩], postings.2)
  else .ok postings

/-- A repayment on the day of the offer is not, the settlement comes in its place. -/
def addReturn (input : CashflowInput) (original : PerUnitAmount) (cutoff : Option Date) (postings : Postings)
    (item : Bond.PrincipalReturn) : Except CashflowError Postings :=
  if item.repaymentDate ≤ input.asOf then
    .ok (postings.1, postings.2 ++ [⟨item.repaymentDate, .principalReturn, none⟩])
  else if cutoff.all fun date => item.repaymentDate < date then do
    let share ← (item.sharePercent.checkedDiv .hundred).mapError .numeric
    let amount ← amountForPerUnit original input.quantity share
    return (postings.1 ++ [⟨item.repaymentDate, amount, .principalReturn⟩], postings.2)
  else .ok postings

def addSettlement (input : CashflowInput) (original : PerUnitAmount) (offer : Option OfferWindowTerms)
    (postings : Postings) : Except CashflowError Postings :=
  match offer with
  | none => .ok postings
  | some terms =>
    match terms.pricePercent with
    | none => .error (.offerWindowNotExercisable terms.window)
    | some pricePercent => do
      let share ← (pricePercent.checkedDiv .hundred).mapError .numeric
      let settlement ← amountForPerUnit original input.quantity share
      if terms.executionDate ≤ input.asOf then
        return (postings.1, postings.2 ++ [⟨terms.executionDate, .offerSettlement, none⟩])
      else return (postings.1 ++ [⟨terms.executionDate, settlement, .offerSettlement⟩], postings.2)

/-- The first version of the plan. -/
def futurePostingsV1 (input : CashflowInput) : Except CashflowError CashflowPlan := do
  (complete input.schedule.completeness).mapError .ofTrust
  notDefaulted input.schedule.defaultFlags
  oneCurrency input.schedule.currencyRoles input.reportCurrency
  let original ← principalOf input.schedule input.reportCurrency
  sharesAreWhole input.schedule
  let offer ← offerOf input.schedule input.choice
  let cutoff := offer.map OfferWindowTerms.executionDate
  let terminalDate := terminalDateOf input.schedule input.asOf offer
  couponsAreKnown input terminalDate
  let coupons ← input.schedule.periods.foldlM (addCoupon input cutoff) ([], [])
  let returns ← input.schedule.principalReturns.foldlM (addReturn input original cutoff) coupons
  let postings ← addSettlement input original offer returns
  return ⟨postings.1.insertionSort fun l r => l.date ≤ r.date, terminalDate,
    postings.2.insertionSort fun l r => l.key ≤ r.key⟩

/-- The second version: the same payments to come, and a past that says who was entitled to it. -/
def futurePostingsV2 (input : CashflowInput) : Except CashflowError CashflowPlan := do
  let plan ← futurePostingsV1 input
  let past ← (historicalSchedulePostings input.schedule input.asOf).mapError .ofTrust
  let settlements := plan.past.filter fun posting => posting.kind = .offerSettlement
  return { plan with
    past := (past ++ settlements).insertionSort fun l r => toLex (l.date, l.kind) ≤ toLex (r.date, r.kind) }

end Cashflow
end Iaam
