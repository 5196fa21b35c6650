import Iaam.Reconciliation.Observed

/-! The comparison of one assertion with the observed quantities (`reconciliation/check.rs`). It is exact: there
is no tolerance. -/

namespace Iaam

/-! ### What a claim is compared against -/

def startOf : Option OpeningAnchor → ObservedStart
  | some .asserted => .asserted
  | some .unasserted => .unasserted
  | none => .noRecordedMovement

def foldedTo («at» : BalancePoint) (observed : ObservedTotals) : FoldSpan :=
  match «at» with
  | .opening => observed.before
  | .closing => observed.before.merge observed.within

/-- The earlier stated balance a claim is measured from, where the level cannot be compared and there is one. -/
def cashBaselineFor (observed : ObservedTotals) («at» : BalancePoint) (currency : CurrencyCode) : Option Baseline :=
  if (observed.cashAt «at» currency).isNone ∨ observed.cashAnchor[currency]? ≠ some .unasserted then none
  else observed.cashBaseline[(⟨«at», currency⟩ : BaselineKey)]?

def cashCompared (observed : ObservedTotals) («at» : BalancePoint) (currency : CurrencyCode) : Compared :=
  match cashBaselineFor observed «at» currency with
  | some baseline => .changeSince baseline.at.date
  | none => .level

def observationBasis (claim : ControlClaim) (observed : ObservedTotals) : ObservationBasis :=
  match claim with
  | .cashBalance currency _ «at» =>
    ⟨foldedTo «at» observed, startOf observed.cashAnchor[currency]?, cashCompared observed «at» currency⟩
  | .positionQuantity instrument _ «at» =>
    ⟨foldedTo «at» observed, startOf observed.positionAnchor[instrument]?, .level⟩
  | .cashTurnover .. | .feesTotal .. | .incomeTotal .. | .taxWithheldTotal .. => ⟨observed.within, .notABalance, .level⟩

/-! ### Comparisons -/

/-- The nearest value that fits in a signed 64-bit word. -/
def PostedMinor.saturate (n : Int) : PostedMinor where
  raw := max (-2 ^ 63) (min n (2 ^ 63 - 1))
  fits := by unfold FitsI64; omega

def PostedMinor.saturatingSub (l r : PostedMinor) : PostedMinor := saturate (l.raw - r.raw)

/-- A gap wider than the monetary type is a discrepancy in any case, so the difference saturates. -/
def compareMoney (field : String) (currency : CurrencyCode) (claimed observed : PostedMinor) : ClaimOutcome :=
  if claimed = observed then .matched
  else
    .discrepant {
      field
      claimed := .money claimed currency
      observed := .money observed currency
      delta := .money (claimed.saturatingSub observed) currency
      reason := none }

def compareQuantity (claimed observed : Quantity) : ClaimOutcome :=
  if claimed = observed then .matched
  else
    .discrepant {
      field := "quantity"
      claimed := .quantity claimed
      observed := .quantity observed
      delta := .quantity ((claimed.checkedSub observed).toOption.getD .zero)
      reason := none }

/-- The change since an earlier stated balance: the unknown start cancels out of both sides. -/
def compareChange (currency : CurrencyCode) (claimed observed : PostedMinor) (baseline : Baseline) : ClaimOutcome :=
  compareMoney "change_since_stated_balance" currency (claimed.saturatingSub baseline.claimed)
    (observed.saturatingSub baseline.observed)

/-- Names the day boundary as the cause of a discrepancy of an opening figure, when the difference is exactly
    what the boundary left out. -/
def nameBoundaryReason (outcome : ClaimOutcome) («at» : BalancePoint) (excluded : Option ClaimValue) : ClaimOutcome :=
  match outcome with
  | .discrepant d =>
    if «at» = .opening ∧ excluded = some d.delta then
      .discrepant { d with reason := some .openingExcludedByDayBoundary }
    else .discrepant d
  | outcome => outcome

def nameCashBoundaryReason (outcome : ClaimOutcome) («at» : BalancePoint) (currency : CurrencyCode)
    (observed : ObservedTotals) : ClaimOutcome :=
  nameBoundaryReason outcome «at» (observed.cashExcludedFromOpening[currency]?.map (ClaimValue.money · currency))

def namePositionBoundaryReason (outcome : ClaimOutcome) («at» : BalancePoint) (instrument : InstrumentId)
    (observed : ObservedTotals) : ClaimOutcome :=
  nameBoundaryReason outcome «at» (observed.positionExcludedFromOpening[instrument]?.map .quantity)

def checkCash (currency : CurrencyCode) (amount : PostedMinor) («at» : BalancePoint) (observed : ObservedTotals) :
    ClaimOutcome :=
  let level (seen : PostedMinor) :=
    nameCashBoundaryReason (compareMoney "amount" currency amount seen) «at» currency observed
  match observed.cashAt «at» currency with
  | some seen =>
    if observed.cashAnchor[currency]? = some .unasserted then
      match cashBaselineFor observed «at» currency with
      | some baseline => compareChange currency amount seen baseline
      | none => .notComparable .openingNotAsserted
    else level seen
  | none => level .zero

def checkPosition (instrument : InstrumentId) (quantity : Quantity) («at» : BalancePoint) (observed : ObservedTotals) :
    ClaimOutcome :=
  let level (seen : Quantity) :=
    namePositionBoundaryReason (compareQuantity quantity seen) «at» instrument observed
  match observed.positionAt «at» instrument with
  | some seen =>
    if observed.positionAnchor[instrument]? = some .unasserted then .notComparable .openingNotAsserted
    else level seen
  | none => level .zero

/-- The outcome of one assertion. -/
def checkClaim (claim : ControlClaim) (observed : ObservedTotals) : ClaimOutcome :=
  if observed.eventsSeen = 0 then .notComparable .noJournalCoverage
  else
    match claim with
    | .cashBalance currency amount «at» => checkCash currency amount «at» observed
    | .positionQuantity instrument quantity «at» => checkPosition instrument quantity «at» observed
    | .cashTurnover currency debit credit =>
      let seen := observed.turnover[currency]?.getD .zero
      match compareMoney "debit" currency debit seen.debit with
      | .matched => compareMoney "credit" currency credit seen.credit
      | other => other
    | .feesTotal currency amount => compareMoney "amount" currency amount (observed.fees[currency]?.getD .zero)
    | .incomeTotal currency amount => compareMoney "amount" currency amount (observed.income[currency]?.getD .zero)
    | .taxWithheldTotal currency amount =>
      if observed.taxFactsRecorded then
        compareMoney "amount" currency amount (observed.taxWithheld[currency]?.getD .zero)
      else .notComparable .taxFactsNotRecorded

end Iaam
