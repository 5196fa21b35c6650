import Iaam.Projection.Flows
import Iaam.Projection.Lots

/-! The state of the projection (`projection/income.rs`, `valuation.rs`, `projection/state.rs`). -/

namespace Iaam
open Outcome

/-! ### Dated income -/

inductive PostingKind where
  | coupon | principalReturn | offerSettlement
  deriving DecidableEq, Repr

structure ReceivedPosting where
  event : EventId
  date : Date
  amount : Money
  kind : PostingKind
  deriving DecidableEq, Repr

inductive IncomeGap where
  | incomeKindUnknown | paymentDateUnknown
  deriving DecidableEq, Repr

structure IncomeEntry where
  postings : List ReceivedPosting := []
  gap : Option IncomeGap := none
  deriving DecidableEq, Repr

structure IncomeLedger where
  entries : Tree.Map LotKey IncomeEntry

namespace IncomeLedger

def empty : IncomeLedger := ⟨∅⟩

/-- The day the money was received: posting, otherwise payment. -/
def paymentDate (e : Event) : Option Date := e.dates.cashPosted.or e.dates.paid

def record (ledger : IncomeLedger) (key : LotKey) (posting : ReceivedPosting) : IncomeLedger :=
  let entry := ledger.entries[key]?.getD {}
  ⟨ledger.entries.insert key { entry with postings := entry.postings ++ [posting] }⟩

/-- The first reason stays. -/
def mark (ledger : IncomeLedger) (key : LotKey) (gap : IncomeGap) : IncomeLedger :=
  let entry := ledger.entries[key]?.getD {}
  ⟨ledger.entries.insert key { entry with gap := entry.gap.or (some gap) }⟩

/-- Records a payment under its date, or marks the pair when the date is not known. -/
def receive (ledger : IncomeLedger) (e : Event) (key : LotKey) (amount : Money) (kind : PostingKind) : IncomeLedger :=
  match paymentDate e with
  | none => ledger.mark key .paymentDateUnknown
  | some date => ledger.record key ⟨e.id, date, amount, kind⟩

/-- The amount of a buyback: interest added, fee taken off. -/
def settlementAmount (terms : OfferSettlement) : Except MoneyError Money := do
  let amount ← terms.gross.withOptional Money.tryAdd terms.accruedInterest
  amount.withOptional Money.trySub terms.fee

def applyOfferExercise (ledger : IncomeLedger) (e : Event) : OfferExerciseAction → Except MoneyError IncomeLedger
  | .submitted .. | .cancelled .. => .ok ledger
  | .settled terms =>
    let key : LotKey := ⟨e.account, terms.instrument⟩
    match paymentDate e with
    | none => .ok (ledger.mark key .paymentDateUnknown)
    | some date => do
      let amount ← settlementAmount terms
      return ledger.record key ⟨e.id, date, amount, .offerSettlement⟩

def apply (ledger : IncomeLedger) (e : Event) : Except MoneyError IncomeLedger :=
  match e.kind with
  | .income (some instrument) gross (some .coupon) =>
    .ok (ledger.receive e ⟨e.account, instrument⟩ gross .coupon)
  | .income (some instrument) _ none => .ok (ledger.mark ⟨e.account, instrument⟩ .incomeKindUnknown)
  | .corporateAction (.partialRedemption terms _) | .corporateAction (.redemption terms) =>
    .ok (ledger.receive e ⟨e.account, terms.instrument⟩ terms.compensation .principalReturn)
  | .offerExercise action => ledger.applyOfferExercise e action
  | _ => .ok ledger

end IncomeLedger

/-! ### Prices -/

structure InstrumentPrice where
  instrument : InstrumentId
  price : Dec
  currency : CurrencyCode
  quality : PriceQuality
  asOf : Date
  deriving DecidableEq, Repr

structure PriceBoard where
  prices : Tree.Map InstrumentId (Tree.Map Date InstrumentPrice)

namespace PriceBoard

def empty : PriceBoard := ⟨∅⟩

def record (board : PriceBoard) (price : InstrumentPrice) : PriceBoard :=
  ⟨board.prices.insert price.instrument
    ((board.prices[price.instrument]?.getD ∅).insert price.asOf price)⟩

/-- The price an event states, under its effective date. -/
def observe (board : PriceBoard) (e : Event) : PriceBoard :=
  match e.kind, e.dates.effectiveDate with
  | .valuation instrument price currency quality, some asOf =>
    board.record ⟨instrument, price, currency, quality, asOf⟩
  | _, _ => board

end PriceBoard

/-! ### Coverage -/

structure Coverage where
  eventsApplied : Nat
  firstEventByAccount : Tree.Map AccountId Date
  firstEvent : Option Date
  lastEvent : Option Date
  restoredAccounts : Tree.Set AccountId
  estimatedEvents : Nat

namespace Coverage

def empty : Coverage := ⟨0, ∅, none, none, ∅, 0⟩

/-- The earlier of a date and one that may not be known yet. -/
def earlier (known : Option Date) (date : Date) : Date := (known.map (min · date)).getD date

/-- The later of the two. -/
def later (known : Option Date) (date : Date) : Date := (known.map (max · date)).getD date

def observeDate (c : Coverage) (account : AccountId) (date : Date) : Coverage :=
  { c with
    firstEvent := some (earlier c.firstEvent date)
    firstEventByAccount :=
      c.firstEventByAccount.insert account (earlier c.firstEventByAccount[account]? date)
    lastEvent := some (later c.lastEvent date) }

def observe (c : Coverage) (e : Event) : Coverage :=
  let c := { c with eventsApplied := c.eventsApplied + 1 }
  let c := match e.dates.effectiveDate with
    | some date => c.observeDate e.account date
    | none => c
  let c := match e.confidence with
    | .known => c
    | .estimated | .unknown => { c with estimatedEvents := c.estimatedEvents + 1 }
  match e.kind with
  | .openingCash _ | .openingPosition .. => { c with restoredAccounts := c.restoredAccounts.insert e.account }
  | _ => c

end Coverage

/-! ### The whole state -/

structure LedgerState where
  balances : Balances
  book : LotBook
  flows : FlowLog
  income : IncomeLedger
  prices : PriceBoard
  coverage : Coverage

def LedgerState.new (book : LotBook) : LedgerState := ⟨.empty, book, .empty, .empty, .empty, .empty⟩

end Iaam
