import Iaam.Event.Correction
import Iaam.Reconciliation.Anchor
import Iaam.Reconciliation.Ledger

/-! The quantities of an interval as the journal gives them (`reconciliation/observed.rs`): balances at its two
points, turnover, fees, income and tax within it, and the earlier stated balances they can be measured from. -/

namespace Iaam

structure Turnover where
  debit : PostedMinor
  credit : PostedMinor
  deriving DecidableEq, Repr

def Turnover.zero : Turnover := ⟨.zero, .zero⟩

/-! ### Spans and moments -/

namespace FoldSpan

def empty : FoldSpan := ⟨0, none, none⟩

def «include» (span : FoldSpan) (date : Date) : FoldSpan where
  events := span.events + 1
  first := some ((span.first.map (min · date)).getD date)
  last := some ((span.last.map (max · date)).getD date)

def merge (l r : FoldSpan) : FoldSpan where
  events := l.events + r.events
  first := Option.merge min l.first r.first
  last := Option.merge max l.last r.last

end FoldSpan

def BalancePoint.index : BalancePoint → Nat
  | opening => 0 | closing => 1

instance : LinearOrder BalancePoint :=
  LinearOrder.lift' BalancePoint.index fun a b h => by
    cases a <;> cases b <;> first | rfl | simp [BalancePoint.index] at h

/-- A moment at which a balance can be stated: a date, and whether the movements of that day are inside. -/
structure BalanceMoment where
  date : Date
  inclusive : Bool
  deriving DecidableEq, Repr

instance : LinearOrder BalanceMoment :=
  LinearOrder.lift' (fun m => toLex (m.date, m.inclusive)) fun a b h => by
    cases a
    cases b
    simpa using h

namespace BalanceMoment

def of (period : AssertionPeriod) : BalancePoint → BalanceMoment
  | .opening => ⟨period.from, false⟩
  | .closing => ⟨period.to, true⟩

def covers (moment : BalanceMoment) (date : Date) : Bool :=
  if moment.inclusive then date ≤ moment.date else date < moment.date

end BalanceMoment

/-- The point of the interval and the currency that a baseline is kept under. -/
structure BaselineKey where
  «at» : BalancePoint
  currency : CurrencyCode
  deriving DecidableEq, Repr

instance : LinearOrder BaselineKey :=
  LinearOrder.lift' (fun k => toLex (k.at, k.currency)) fun a b h => by
    cases a
    cases b
    simpa using h

/-- An earlier balance that a source stated, and the journal's own fold at the same moment. -/
structure Baseline where
  «at» : BalanceMoment
  claimed : PostedMinor
  observed : PostedMinor
  deriving DecidableEq, Repr

/-- The moment picked as a baseline, with the figure stated there when the sources agree about it. -/
structure Chosen where
  «at» : BalanceMoment
  claimed : Option PostedMinor
  deriving DecidableEq, Repr

structure StatedBalance where
  «at» : BalanceMoment
  currency : CurrencyCode
  claimed : PostedMinor
  deriving DecidableEq, Repr

inductive ObserveError where
  | eventWithoutDate (event : EventId)
  | overflow (field : String)
  | balance (e : BalanceError)
  | correction (e : CorrectionError)
  deriving DecidableEq, Repr

/-- The quantities that the events of the account add up to within the interval. -/
structure IntervalTotals where
  turnover : Tree.Map CurrencyCode Turnover
  fees : Tree.Map CurrencyCode PostedMinor
  income : Tree.Map CurrencyCode PostedMinor
  taxWithheld : Tree.Map CurrencyCode PostedMinor
  taxFactsRecorded : Bool

structure ObservedTotals extends IntervalTotals where
  cashOpening : Tree.Map CurrencyCode PostedMinor
  cashClosing : Tree.Map CurrencyCode PostedMinor
  positionsOpening : Tree.Map InstrumentId Quantity
  positionsClosing : Tree.Map InstrumentId Quantity
  cashAnchor : Tree.Map CurrencyCode OpeningAnchor
  positionAnchor : Tree.Map InstrumentId OpeningAnchor
  before : FoldSpan
  within : FoldSpan
  cashBaseline : Tree.Map BaselineKey Baseline
  cashExcludedFromOpening : Tree.Map CurrencyCode PostedMinor
  positionExcludedFromOpening : Tree.Map InstrumentId Quantity

namespace ObservedTotals

def empty : ObservedTotals where
  cashOpening := ∅
  cashClosing := ∅
  positionsOpening := ∅
  positionsClosing := ∅
  turnover := ∅
  fees := ∅
  income := ∅
  taxWithheld := ∅
  taxFactsRecorded := false
  cashAnchor := ∅
  positionAnchor := ∅
  before := .empty
  within := .empty
  cashBaseline := ∅
  cashExcludedFromOpening := ∅
  positionExcludedFromOpening := ∅

def cashAt (t : ObservedTotals) : BalancePoint → CurrencyCode → Option PostedMinor
  | .opening, currency => t.cashOpening[currency]?
  | .closing, currency => t.cashClosing[currency]?

def positionAt (t : ObservedTotals) : BalancePoint → InstrumentId → Option Quantity
  | .opening, instrument => t.positionsOpening[instrument]?
  | .closing, instrument => t.positionsClosing[instrument]?

/-- How many events of the account the journal saw during and before the interval. -/
def eventsSeen (t : ObservedTotals) : Nat := t.before.events + t.within.events

end ObservedTotals

/-! ### The totals of the interval -/

/-- Control totals are absolute values. -/
def addMagnitude (into : Tree.Map CurrencyCode PostedMinor) (currency : CurrencyCode) (raw : Int) (field : String) :
    Except ObserveError (Tree.Map CurrencyCode PostedMinor) :=
  match PostedMinor.ofInt |raw| with
  | none => .error (.overflow field)
  | some magnitude =>
    match (into[currency]?.getD .zero).checkedAdd magnitude with
    | none => .error (.overflow field)
    | some sum => .ok (into.insert currency sum)

/-- An amount that flows in is a debit, an amount that flows out a credit. -/
def addTurnover (turnover : Turnover) (raw : Int) : Except ObserveError Turnover :=
  if 0 ≤ raw then
    match (PostedMinor.ofInt raw).bind turnover.debit.checkedAdd with
    | none => .error (.overflow "debit")
    | some debit => .ok { turnover with debit }
  else
    match (PostedMinor.ofInt (-raw)).bind turnover.credit.checkedAdd with
    | none => .error (.overflow "credit")
    | some credit => .ok { turnover with credit }

def EventKind.isIncome : EventKind → Bool
  | income .. => true
  | _ => false

/-- One leg of the account. -/
def accumulateLeg (isIncome : Bool) (account : AccountId) (t : IntervalTotals) (leg : Leg) :
    Except ObserveError IntervalTotals :=
  if leg.account ≠ account then .ok t
  else
    match leg.cashEffect with
    | none => .ok t
    | some money => do
      let currency := money.currency
      let raw := money.amount.raw
      let turnover ← addTurnover (t.turnover[currency]?.getD .zero) raw
      let t := { t with turnover := t.turnover.insert currency turnover }
      match leg.kind with
      | .fee => return { t with fees := ← addMagnitude t.fees currency raw "fees" }
      | .tax =>
        return { t with
          taxFactsRecorded := true
          taxWithheld := ← addMagnitude t.taxWithheld currency raw "tax_withheld" }
      | .cash =>
        if isIncome then return { t with income := ← addMagnitude t.income currency raw "income" } else return t
      | .securityQuantity | .principal => return t

/-- The interval quantities of the legs of the account. -/
def accumulateTotals (t : IntervalTotals) (event : Event) (account : AccountId) : Except ObserveError IntervalTotals :=
  event.legs.foldlM (accumulateLeg event.kind.isIncome account) t

/-! ### Baselines -/

def statedCashBalance (account : AccountId) (event : Event) : Option StatedBalance :=
  if event.account ≠ account then none
  else
    match event.kind with
    | .controlAssertion period (.cashBalance currency amount at') => some ⟨.of period at', currency, amount⟩
    | _ => none

/-- Every cash balance that a source stated about the account. -/
def statedCashBalances (events : List Event) (account : AccountId) : List StatedBalance :=
  events.filterMap (statedCashBalance account)

/-- The later of the known moment and the candidate's. -/
def latestOf (latest : Tree.Map BaselineKey BalanceMoment) (key : BaselineKey) (candidate : BalanceMoment) :
    Tree.Map BaselineKey BalanceMoment :=
  match latest[key]? with
  | some known => if known < candidate then latest.insert key candidate else latest
  | none => latest.insert key candidate

def latestMoments (stated : List StatedBalance) (period : AssertionPeriod) : Tree.Map BaselineKey BalanceMoment :=
  [BalancePoint.opening, .closing].foldl (fun latest at' =>
    (stated.filter fun candidate => candidate.at < .of period at').foldl (fun latest candidate =>
      latestOf latest ⟨at', candidate.currency⟩ candidate.at) latest) ∅

/-- The figure stated in a currency at a moment, unless two of the statements disagree. -/
def agreedAt (stated : List StatedBalance) (currency : CurrencyCode) (moment : BalanceMoment) : Option PostedMinor :=
  let here := stated.filter fun candidate => candidate.currency = currency ∧ candidate.at = moment
  let (agreed, contradicted) := here.foldl (fun (acc : Option PostedMinor × Bool) candidate =>
    match acc.1 with
    | some claimed => if claimed ≠ candidate.claimed then (some claimed, true) else acc
    | none => (some candidate.claimed, acc.2)) (none, false)
  if contradicted then none else agreed

/-- For each point of the interval and each currency, the latest balance stated strictly earlier. -/
def chooseBaselines (stated : List StatedBalance) (period : AssertionPeriod) : Tree.Map BaselineKey Chosen :=
  (latestMoments stated period).map fun key moment => ⟨moment, agreedAt stated key.currency moment⟩

def distinctMoments (chosen : Tree.Map BaselineKey Chosen) : List BalanceMoment :=
  let moments := (chosen.toList.filter fun entry => entry.2.claimed.isSome).map fun entry => entry.2.at
  (moments.insertionSort (· ≤ ·)).dedup

/-! ### The fold -/

/-- What `observe` carries along the events. -/
structure ObservedFold where
  opening : Balances
  closing : Balances
  boundary : Balances
  baselines : List (BalanceMoment × Balances)
  totals : ObservedTotals

def applied (b : Balances) (event : Event) : Except ObserveError Balances := (b.apply event).mapError .balance

def applyBaseline (event : Event) (date : Date) (entry : BalanceMoment × Balances) :
    Except ObserveError (BalanceMoment × Balances) :=
  if entry.1.covers date then do return (entry.1, ← applied entry.2 event) else .ok entry

def Event.touches (event : Event) (account : AccountId) : Bool := event.legs.any fun leg => leg.account = account

/-- An event without a date falls within no interval. -/
def dateOf (event : Event) : Except ObserveError Date :=
  match event.dates.effectiveDate with
  | some date => .ok date
  | none => .error (.eventWithoutDate event.id)

/-- The day the interval starts on is folded apart. -/
def applyBoundary (period : AssertionPeriod) (date : Date) (b : Balances) (event : Event) :
    Except ObserveError Balances :=
  if date = period.from then applied b event else .ok b

/-- An event of the account dated before the interval is counted. -/
def countBefore (t : ObservedTotals) (event : Event) (account : AccountId) (date : Date) : ObservedTotals :=
  if event.touches account then { t with before := t.before.include date } else t

/-- An event of the account dated within the interval is counted and accumulated. -/
def accumulateWithin (t : ObservedTotals) (event : Event) (account : AccountId) (date : Date) :
    Except ObserveError ObservedTotals :=
  if event.touches account then do
    let interval ← accumulateTotals t.toIntervalTotals event account
    return { t with toIntervalTotals := interval, within := t.within.include date }
  else .ok t

def observeEvent (account : AccountId) (period : AssertionPeriod) (s : ObservedFold) (event : Event) :
    Except ObserveError ObservedFold := do
  let date ← dateOf event
  let baselines ← s.baselines.mapM (applyBaseline event date)
  if date < period.from then
    let opening ← applied s.opening event
    let closing ← applied s.closing event
    return { s with opening, closing, baselines, totals := countBefore s.totals event account date }
  else if period.contains date then
    let closing ← applied s.closing event
    let boundary ← applyBoundary period date s.boundary event
    let totals ← accumulateWithin s.totals event account date
    return { s with closing, boundary, baselines, totals }
  -- Events after the interval apply to nothing.
  else return { s with baselines }

def snapshotCash (b : Balances) (account : AccountId) : Tree.Map CurrencyCode PostedMinor :=
  (b.cash.toList.filter fun entry => entry.1.account = account).foldl
    (fun into entry => into.insert entry.1.currency entry.2) ∅

def snapshotPositions (b : Balances) (account : AccountId) : Tree.Map InstrumentId Quantity :=
  (b.positions.toList.filter fun entry => entry.1.account = account).foldl
    (fun into entry => into.insert entry.1.instrument entry.2) ∅

/-- The anchors of the keys for which a fold produced a figure. -/
def recordAnchors (anchors : OpeningAnchors) (account : AccountId) (t : ObservedTotals) : ObservedTotals :=
  { t with
    cashAnchor := (t.cashOpening.keys ++ t.cashClosing.keys).foldl
      (fun into currency => into.insert currency (anchors.cash account currency)) t.cashAnchor
    positionAnchor := (t.positionsOpening.keys ++ t.positionsClosing.keys).foldl
      (fun into instrument => into.insert instrument (anchors.position account instrument)) t.positionAnchor }

/-- Pairs a chosen baseline with what the fold said at its moment. -/
def recordBaseline (folds : List (BalanceMoment × Balances)) (account : AccountId)
    (into : Tree.Map BaselineKey Baseline) (entry : BaselineKey × Chosen) : Tree.Map BaselineKey Baseline :=
  match entry.2.claimed, folds.find? fun fold => fold.1 = entry.2.at with
  | some claimed, some fold =>
    into.insert entry.1 ⟨entry.2.at, claimed, (snapshotCash fold.2 account)[entry.1.currency]?.getD .zero⟩
  | _, _ => into

def recordBaselines (chosen : Tree.Map BaselineKey Chosen) (folds : List (BalanceMoment × Balances))
    (account : AccountId) (t : ObservedTotals) : ObservedTotals :=
  { t with cashBaseline := chosen.toList.foldl (recordBaseline folds account) t.cashBaseline }

/-- The observed quantities over an interval. `events` is the effective set. -/
def observe (events : List Event) (account : AccountId) (period : AssertionPeriod) :
    Except ObserveError ObservedTotals := do
  let chosen := chooseBaselines (statedCashBalances events account) period
  let start : ObservedFold :=
    ⟨.empty, .empty, .empty, (distinctMoments chosen).map fun moment => (moment, .empty), .empty⟩
  let s ← events.foldlM (observeEvent account period) start
  let totals := { s.totals with
    cashOpening := snapshotCash s.opening account
    cashClosing := snapshotCash s.closing account
    positionsOpening := snapshotPositions s.opening account
    positionsClosing := snapshotPositions s.closing account
    cashExcludedFromOpening := snapshotCash s.boundary account
    positionExcludedFromOpening := snapshotPositions s.boundary account }
  return recordBaselines chosen s.baselines account (recordAnchors (.of events) account totals)

end Iaam
