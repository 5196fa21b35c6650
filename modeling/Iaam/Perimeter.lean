import Iaam.Lib.Numbered
import Iaam.Reconciliation.Build

/-! The perimeter (`perimeter.rs`): the spans of negative cash on an account in a currency, and the accounts with
financing from outside it. -/

namespace Iaam

structure PerimeterPolicy where
  settlementWindowDays : UInt16
  deriving DecidableEq, Repr

def PerimeterPolicy.default : PerimeterPolicy := ⟨5⟩

inductive NegativeCashClassification where
  | temporarySettlementDeficit | unsupportedMarginLiability | unclassifiedNegativeCash
  deriving DecidableEq, Repr

def NegativeCashClassification.blocksReports : NegativeCashClassification → Bool
  | temporarySettlementDeficit => false
  | unsupportedMarginLiability | unclassifiedNegativeCash => true

/-- An interval of negative cash, open while it has no date on which the balance was back. -/
structure NegativeCashSpan where
  account : AccountId
  currency : CurrencyCode
  «from» : Date
  resolved : Option Date
  classification : NegativeCashClassification
  deriving DecidableEq, Repr

inductive PerimeterError where
  | eventWithoutDate (event : EventId)
  | overflow (account : AccountId) (currency : CurrencyCode)
  | correction (e : CorrectionError)

structure PerimeterAssessment where
  policy : PerimeterPolicy
  spans : List NegativeCashSpan
  financing : Tree.Set AccountId

namespace PerimeterAssessment

def empty (policy : PerimeterPolicy) : PerimeterAssessment := ⟨policy, [], ∅⟩

def financingPresent (a : PerimeterAssessment) (account : AccountId) : Bool := a.financing.contains account

def blocksPeriodReports (a : PerimeterAssessment) (account : AccountId) : Bool :=
  a.spans.any fun span => span.account = account ∧ span.classification.blocksReports = true

def exceptions (a : PerimeterAssessment) : PerimeterExceptions :=
  a.financing.toList.foldl (fun exceptions account => exceptions.add account .cash .unsupportedFinancingPresent) .default

end PerimeterAssessment

namespace Perimeter

/-- A credit indicator outranks the time limit. -/
def classify (key : CashKey) («from» : Date) (resolved : Option Date) (financing : Tree.Set AccountId)
    (policy : PerimeterPolicy) : NegativeCashSpan where
  account := key.account
  currency := key.currency
  «from»
  resolved
  classification :=
    if key.account ∈ financing then .unsupportedMarginLiability
    else if resolved.any fun «end» => («end».day : Int) - «from».day ≤ policy.settlementWindowDays.toNat then
      .temporarySettlementDeficit
    else .unclassifiedNegativeCash

def datedEvent (event : Event) : Except PerimeterError (Date × Event) :=
  match event.dates.effectiveDate with
  | some date => .ok (date, event)
  | none => .error (.eventWithoutDate event.id)

/-- The events with their dates, in the order of replay. -/
def ordered (effective : List Event) : Except PerimeterError (List (Date × Event)) := do
  let dated ← effective.mapM datedEvent
  return dated.insertionSort fun l r => compareForReplay l.2 r.2 ≠ .gt

def chargesMargin (event : Event) : Bool :=
  match event.kind with
  | .fee _ .marginInterest => true
  | _ => false

/-- Margin interest may be charged after the deficit closes, so it is looked for in the whole journal. -/
def financingOf (ordered : List (Date × Event)) : Tree.Set AccountId :=
  ordered.foldl (fun financing entry =>
    if chargesMargin entry.2 then financing.insert entry.2.account else financing) ∅

/-- The balances so far, the spans that are open, and the spans that are over. -/
structure Progress where
  balances : Tree.Map CashKey PostedMinor
  «open» : Tree.Map CashKey Date
  spans : List NegativeCashSpan

namespace Progress
variable (financing : Tree.Set AccountId) (policy : PerimeterPolicy)

def empty : Progress := ⟨∅, ∅, []⟩

/-- What the balance behind a leg does to the spans. -/
def settle (p : Progress) (date : Date) (key : CashKey) (slot : PostedMinor) : Progress :=
  match decide (slot.raw < 0), p.open[key]? with
  | true, none => { p with «open» := p.open.insert key date }
  | false, some start =>
    { p with «open» := p.open.erase key, spans := p.spans ++ [classify key start (some date) financing policy] }
  | _, _ => p

def applyLeg (date : Date) (p : Progress) (leg : Leg) : Except PerimeterError Progress :=
  match leg.cashEffect with
  | none => .ok p
  | some money =>
    let key : CashKey := ⟨leg.account, money.currency⟩
    match (p.balances[key]?.getD .zero).checkedAdd money.amount with
    | none => .error (.overflow leg.account money.currency)
    | some slot => .ok (settle financing policy { p with balances := p.balances.insert key slot } date key slot)

def apply (p : Progress) (entry : Date × Event) : Except PerimeterError Progress :=
  entry.2.legs.foldlM (applyLeg financing policy entry.1) p

/-- The spans, with those that remain open behind those that are over. -/
def allSpans (p : Progress) : List NegativeCashSpan :=
  p.spans ++ p.open.toList.map fun entry => classify entry.1 entry.2 none financing policy

end Progress

def spanKey (span : NegativeCashSpan) : Date ×ₗ AccountId ×ₗ CurrencyCode :=
  toLex (span.from, toLex (span.account, span.currency))

def assessEffective (effective : List Event) (policy : PerimeterPolicy) : Except PerimeterError PerimeterAssessment := do
  let ordered ← ordered effective
  let financing := financingOf ordered
  let progress ← ordered.foldlM (Progress.apply financing policy) .empty
  return ⟨policy, Numbered.sortBy spanKey (progress.allSpans financing policy), financing⟩

/-- Corrections are resolved here and not by the caller. -/
def assess (events : List Event) (policy : PerimeterPolicy) : Except PerimeterError PerimeterAssessment := do
  let effective ← (resolve events).mapError .correction
  assessEffective effective policy

end Perimeter
end Iaam
