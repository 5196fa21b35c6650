import Iaam.Cashflow
import Iaam.Projection.Lots

/-! The metrics of a bond scenario without reinvestment (`returns/zero_reinvestment.rs`): the payments are held at a zero
rate up to the end of the horizon, and each cohort of the lots has its share of them. -/

namespace Iaam

namespace ZeroReinvestment
open Cashflow Bond

/-- The reasons the metrics can have. -/
inductive NotComputable (Refusal : Type) where
  | solverRefused (refusal : Refusal)
  | numeric (code : String)
  | nonPositiveDuration (coordinate terminalDate : Date)
  | nonPositiveInitialCapital
  | negativeTerminalWealth
  | acquisitionBasisUnknown
  | accruedInterestAtAcquisitionUnknown
  | historicalReceiptsUnknown
  | cohortGap (gap : CohortGap)
  | currencyMismatch (expected actual : CurrencyCode)
  deriving DecidableEq, Repr

/-- The solver of rates, over days and amounts, and the rate of a total loss. It calculates in floating point. -/
structure Solver (Rate Refusal : Type) where
  solve : List (Int × Dec) → Except Refusal Rate
  totalLoss : Rate

/-- The product and the quotient of decimals, which `rust_decimal` rounds. -/
structure Rounded where
  mul : Dec → Dec → Except NumericError Dec
  div : Dec → Dec → Except NumericError Dec

/-- What is exact in spite of the rounding. -/
structure Rounded.Lawful (ar : Rounded) : Prop where
  div_self : ∀ x : Dec, 0 < x.val → ar.div x x = .ok .one
  mul_one : ∀ x : Dec, ar.mul x .one = .ok x

section
variable {Rate Refusal : Type}

abbrev Computed (Refusal α : Type) := Except (NotComputable Refusal) α

structure ZeroReinvestmentMetrics (Rate Refusal : Type) where
  postings : List ExpectedPosting
  terminalWealth : CalcMoney
  surplus : CalcMoney
  hpr : Computed Refusal Dec
  cagr0r : Computed Refusal Rate

/-! ### One scenario -/

def hprOf (c0 terminalWealth : CalcMoney) : Computed Refusal Dec :=
  if 0 < c0.value.val then do
    let ratio ← (terminalWealth.value.checkedDiv c0.value).mapError fun _ => .numeric "hpr_div"
    (ratio.checkedSub .one).mapError fun _ => .numeric "hpr_div"
  else .error .nonPositiveInitialCapital

/-- The rate, where there is one to solve for. A capital that cannot be negated refuses the metrics as a whole. -/
def cagrOf (solver : Solver Rate Refusal) (c0 terminalWealth : CalcMoney) (coordinate terminalDate : Date) :
    Computed Refusal (Computed Refusal Rate) :=
  if c0.value.val ≤ 0 then .ok (.error .nonPositiveInitialCapital)
  else if terminalWealth.value.isNegative then .ok (.error .negativeTerminalWealth)
  else
    let days := terminalDate.day - coordinate.day
    if days ≤ 0 then .ok (.error (.nonPositiveDuration coordinate terminalDate))
    else if terminalWealth.value.isZero then .ok (.ok solver.totalLoss)
    else do
      let negative ← c0.value.checkedNeg.mapError fun _ => .numeric "c0_negate"
      return (solver.solve [(0, negative), (days, terminalWealth.value)]).mapError .solverRefused

def metricsFromTerminalWealth (solver : Solver Rate Refusal) (postings : List ExpectedPosting) (c0 : CalcMoney)
    (coordinate terminalDate : Date) (terminalWealth : CalcMoney) :
    Computed Refusal (ZeroReinvestmentMetrics Rate Refusal) := do
  let surplus ← (terminalWealth.checkedSub c0).mapError fun _ => .numeric "surplus_sub"
  let cagr ← cagrOf solver c0 terminalWealth coordinate terminalDate
  return ⟨postings, terminalWealth, surplus, hprOf c0 terminalWealth, cagr⟩

/-- Adds a posting to the wealth, in the one currency there is. -/
def addToWealth (code : String) (wealth : CalcMoney) (posting : ExpectedPosting) : Computed Refusal CalcMoney :=
  if posting.amount.currency ≠ wealth.currency then .error (.currencyMismatch wealth.currency posting.amount.currency)
  else (wealth.checkedAdd posting.amount).mapError fun _ => .numeric code

def zeroReinvestmentMetrics (solver : Solver Rate Refusal) (postings : List ExpectedPosting) (c0 : CalcMoney)
    (coordinate terminalDate : Date) : Computed Refusal (ZeroReinvestmentMetrics Rate Refusal) := do
  let terminalWealth ← postings.foldlM (addToWealth "terminal_wealth_sum") ⟨.zero, c0.currency⟩
  metricsFromTerminalWealth solver postings c0 coordinate terminalDate terminalWealth

/-! ### The cohorts -/

structure LifetimeCohortMetric (Rate Refusal : Type) where
  acquired : Date
  quantity : Quantity
  terminalDate : Date
  c0 : Computed Refusal CalcMoney
  metrics : Computed Refusal (ZeroReinvestmentMetrics Rate Refusal)

/-- What the cohort was bought for, with the interest that was paid on it. -/
def acquisitionC0 (cohort : Cohort) : Computed Refusal CalcMoney :=
  match cohort.acquisitionBasis, cohort.accruedInterestPaid with
  | none, _ => .error .acquisitionBasisUnknown
  | some _, none => .error .accruedInterestAtAcquisitionUnknown
  | some acquisition, some accrued =>
    match acquisition.tryAdd accrued with
    | .ok value => .ok ⟨value.toCalcDec, value.currency⟩
    | .error _ => .error (.numeric "acquisition_c0_add")

/-- The payments of the past count in the wealth, as one amount without dates. -/
def lifetimeCohortMetric (solver : Solver Rate Refusal) (cohort : Cohort) (futurePostings : List ExpectedPosting)
    (terminalDate : Date) : LifetimeCohortMetric Rate Refusal where
  acquired := cohort.acquired
  quantity := cohort.quantity
  terminalDate := terminalDate
  c0 := acquisitionC0 cohort
  metrics := do
    let c0 ← acquisitionC0 cohort
    match cohort.receivedToDate with
    | none => .error .historicalReceiptsUnknown
    | some received =>
      if received.currency ≠ c0.currency then .error (.currencyMismatch c0.currency received.currency)
      else do
        let wealth ← futurePostings.foldlM (addToWealth "lifetime_wealth_add") ⟨received.toCalcDec, received.currency⟩
        metricsFromTerminalWealth solver futurePostings c0 cohort.acquired terminalDate wealth

/-- The share of a posting, and what is left of it. -/
def splitPosting (ar : Rounded) (ratio : Dec) (posting : ExpectedPosting) :
    Computed Refusal (ExpectedPosting × ExpectedPosting) := do
  let value ← (ar.mul posting.amount.value ratio).mapError fun _ => .numeric "cohort_posting_mul"
  let amount : CalcMoney := ⟨value, posting.amount.currency⟩
  let remaining ← (posting.amount.checkedSub amount).mapError fun _ => .numeric "cohort_posting_remainder_sub"
  return ({ posting with amount }, { posting with amount := remaining })

def splitPostings (ar : Rounded) (postings : List ExpectedPosting) (quantity remainingQuantity : Dec) :
    Computed Refusal (List ExpectedPosting × List ExpectedPosting) := do
  let ratio ← (ar.div quantity remainingQuantity).mapError fun _ => .numeric "cohort_quantity_div"
  let parts ← postings.mapM (splitPosting ar ratio)
  return (parts.map Prod.fst, parts.map Prod.snd)

/-- The shares of the cohorts, each out of what the ones before it left. -/
def shareOut (ar : Rounded) : List Cohort → Dec → List ExpectedPosting →
    Computed Refusal (List (Cohort × List ExpectedPosting))
  | [], _, _ => .ok []
  | cohort :: cohorts, remainingQuantity, remainingPostings => do
    let (postings, remainder) ← splitPostings ar remainingPostings cohort.quantity remainingQuantity
    let rest ← (remainingQuantity.checkedSub cohort.quantity).mapError fun _ => .numeric "cohort_remaining_quantity_sub"
    let shares ← shareOut ar cohorts rest remainder
    return (cohort, postings) :: shares

/-- Without any quantity there is nothing to share out. -/
def cohortShares (ar : Rounded) (cohorts : List Cohort) (plan : CashflowPlan) :
    Computed Refusal (List (Cohort × List ExpectedPosting)) := do
  let total ← (cohorts.foldlM (fun (sum : Dec) cohort => sum.checkedAdd cohort.quantity) Dec.zero).mapError
    fun _ => .numeric "cohort_quantity_sum"
  if total.isZero then .ok [] else shareOut ar cohorts total plan.postings

/-- A metric for each cohort, made as soon as its share is known. -/
def lifetimeCohortMetrics (ar : Rounded) (solver : Solver Rate Refusal) (cohorts : List Cohort) (plan : CashflowPlan) :
    Computed Refusal (List (LifetimeCohortMetric Rate Refusal)) := do
  let shares ← cohortShares ar cohorts plan
  return shares.map fun share => lifetimeCohortMetric solver share.1 share.2 plan.terminalDate

def lifetimeMetricsFromLots (ar : Rounded) (solver : Solver Rate Refusal) (lots : InstrumentLots) (plan : CashflowPlan) :
    Computed Refusal (List (LifetimeCohortMetric Rate Refusal)) := do
  let cohorts ← lots.cohorts.mapError .cohortGap
  lifetimeCohortMetrics ar solver cohorts plan

end
end ZeroReinvestment
end Iaam
