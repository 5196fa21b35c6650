import Iaam.Valuation

/-! Money for one security out of a quotation (`bond/principal.rs`, `rules/quotation.rs`). -/

namespace Iaam

/-! ### The remaining principal -/

namespace Bond

/-- A part of the initial principal that is returned, in percent of it. -/
structure PrincipalReturn where
  repaymentDate : Date
  sharePercent : Dec
  deriving DecidableEq, Repr

inductive ScheduleCompleteness where
  | validated
  | incomplete (reason : String)
  | unknown
  deriving DecidableEq, Repr

/-- What the principal is derived from. The coupons, the offers and the flags of the schedule are not read
    here. -/
structure BondSchedule where
  principalReturns : List PrincipalReturn
  initialPrincipal : Option PerUnitAmount
  completeness : ScheduleCompleteness
  deriving DecidableEq, Repr

inductive RemainingPrincipalError where
  | unknown | scheduleNotValidated | shareNotPositive | prefixAboveHundred
  | numeric (e : NumericError)
  deriving DecidableEq, Repr

/-- What was repaid up to a date, that date included. -/
def repaidThrough (schedule : BondSchedule) (on : Date) : Except RemainingPrincipalError Dec :=
  schedule.principalReturns.foldlM (fun repaid item =>
    if on < item.repaymentDate then .ok repaid
    else if !item.sharePercent.isPositive then .error .shareNotPositive
    else (repaid.checkedAdd item.sharePercent).mapError .numeric) .zero

def remainingPrincipal (schedule : BondSchedule) (on : Date) : Except RemainingPrincipalError PerUnitAmount :=
  match schedule.completeness, schedule.initialPrincipal with
  | .incomplete _, _ | .unknown, _ => .error .scheduleNotValidated
  | .validated, none => .error .unknown
  | .validated, some initial => do
    let repaid ← repaidThrough schedule on
    if Dec.hundred < repaid then .error .prefixAboveHundred
    else do
      let remainingShare ← (Dec.hundred.checkedSub repaid).mapError .numeric
      let scaled ← (initial.value.checkedMul remainingShare).mapError .numeric
      let value ← (scaled.checkedDiv .hundred).mapError .numeric
      return ⟨value, initial.currency⟩

end Bond

/-! ### The quotation -/

inductive QuotationError where
  | basisUnknown | principalUnknown
  | numeric (e : NumericError)
  deriving DecidableEq, Repr

/-- `QuotationV1`: a percentage has no currency of its own, and takes that of the principal. -/
def QuotationV1.moneyPerUnit (basis : QuotationBasis) (price : Dec) (venueCurrency : CurrencyCode)
    (remainingFace : Option PerUnitAmount) : Except QuotationError (Dec × CurrencyCode) :=
  match basis, remainingFace with
  | .moneyPerUnit, _ => .ok (price, venueCurrency)
  | .percentOfRemainingFace, none => .error .principalUnknown
  | .percentOfRemainingFace, some face => do
    let fraction ← (price.checkedDiv .hundred).mapError .numeric
    let money ← (fraction.checkedMul face.value).mapError .numeric
    return (money, face.currency)
  | .unknown, _ => .error .basisUnknown

end Iaam
