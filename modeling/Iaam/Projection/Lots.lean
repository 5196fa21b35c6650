import Iaam.Rules
import Iaam.Projection.Balances
import Iaam.Projection.Ownership

/-! The lot book (`projection/lots.rs`): lots are built by kind of event, apart from the balances.

An operation works in place, so it is a `Mut`: what it wrote before it failed stays written. -/

namespace Iaam
open Outcome

inductive LotError where
  | unknownRule (version : Nat)
  | saleWithoutPosition (event : EventId) (instrument : InstrumentId)
  | unknownAmortisationRule (version : Nat)
  | quantityMismatch (held declared : Quantity)
  | amortisation (e : AmortisationError)
  | disposal (e : DisposalError)
  | money (e : MoneyError)
  | numeric (e : NumericError)
  deriving DecidableEq, Repr

inductive BasisGap where
  | restoredWithoutBasis
  | amortisationAllocationUnknown
  deriving DecidableEq, Repr

structure AcquisitionHistory where
  earliest : Option Date
  undated : Bool
  deriving DecidableEq, Repr

namespace AcquisitionHistory

def empty : AcquisitionHistory := ⟨none, false⟩

def observe (h : AcquisitionHistory) : Option Date → AcquisitionHistory
  | some date =>
    { h with earliest := some (match h.earliest with
        | some known => min known date
        | none => date) }
  | none => { h with undated := true }

def lowerBound (h : AcquisitionHistory) : Option Date := if h.undated then none else h.earliest

end AcquisitionHistory

/-- The lots of one instrument on one account. -/
structure InstrumentLots where
  unpriced : Quantity
  lots : List Lot
  realized : Option Money
  acquiredBasis : Option Money
  releasedBasis : Option Money
  gap : Option BasisGap
  incomeKindUnknown : Bool
  unallocatedIncome : Option Money
  unpricedIncome : Option Money
  acquisitions : AcquisitionHistory
  ownership : OwnershipHistory
  deriving DecidableEq

namespace InstrumentLots

def empty : InstrumentLots where
  unpriced := .zero
  lots := []
  realized := none
  acquiredBasis := none
  releasedBasis := none
  gap := none
  incomeKindUnknown := false
  unallocatedIncome := none
  unpricedIncome := none
  acquisitions := .empty
  ownership := .empty

/-! ### Readings -/

def quantity (l : InstrumentLots) : Except NumericError Quantity :=
  l.lots.foldlM (fun acc lot => acc.checkedAdd lot.quantity) l.unpriced

def remainingBasis (l : InstrumentLots) : Except MoneyError (Option Money) :=
  match l.lots with
  | [] => .ok none
  | first :: _ => (Money.sum (l.lots.map Lot.costBasis) first.costBasis.currency).map some

def earliestAcquired (l : InstrumentLots) : Option Date :=
  if l.unpriced.isZero then l.acquisitions.lowerBound else none

/-! ### Cohorts -/

end InstrumentLots

structure Cohort where
  acquired : Date
  quantity : Quantity
  costBasis : Money
  acquisitionBasis : Option Money
  accruedInterestPaid : Option Money
  receivedToDate : Option Money
  deriving DecidableEq, Repr

inductive CohortGap where
  | acquisitionDateUnknown
  | incomeKindUnknown
  | restoredWithoutBasis
  | inconsistentQuantity
  | inconsistentCostBasisCurrency
  | inconsistentCostBasisOverflow
  | inconsistentOptionalMoneyCurrency
  | inconsistentOptionalMoneyOverflow
  deriving DecidableEq, Repr

namespace Cohort

/-- The gap a failed sum of amounts reports. -/
def moneyGap (currency overflow : CohortGap) : MoneyError → CohortGap
  | .currencyMismatch .. => currency
  | .overflow | .numeric _ => overflow

/-- The sum of an amount the lots may not know: one unknown makes it unknown. -/
def sumOptionalMoney (select : Lot → Option Money) : Option Money → List Lot → Except CohortGap (Option Money)
  | total, [] => .ok total
  | total, lot :: lots =>
    match select lot with
    | none => .ok none
    | some value => do
      let sum ← (accumulate total value).mapError
        (moneyGap .inconsistentOptionalMoneyCurrency .inconsistentOptionalMoneyOverflow)
      sumOptionalMoney select (some sum) lots

def addLot (acc : Quantity × Money) (lot : Lot) : Except CohortGap (Quantity × Money) := do
  let quantity ← (acc.1.checkedAdd lot.quantity).mapError fun _ => .inconsistentQuantity
  let costBasis ← (acc.2.tryAdd lot.costBasis).mapError
    (moneyGap .inconsistentCostBasisCurrency .inconsistentCostBasisOverflow)
  return (quantity, costBasis)

/-- The cohort of one date, with its first lot apart: a group is not empty. -/
def ofGroup (acquired : Date) (first : Lot) (rest : List Lot) : Except CohortGap Cohort := do
  let lots := first :: rest
  let acquisitionBasis ← sumOptionalMoney Lot.acquisitionBasis none lots
  let (quantity, costBasis) ← lots.foldlM addLot (Dec.zero, Money.zero first.costBasis.currency)
  let accruedInterestPaid ← sumOptionalMoney Lot.accruedInterestPaid none lots
  let receivedToDate ← sumOptionalMoney Lot.receivedToDate none lots
  return ⟨acquired, quantity, costBasis, acquisitionBasis, accruedInterestPaid, receivedToDate⟩

/-- Adds a lot to the group of its date, behind the lots already there. -/
def group (grouped : Tree.Map Date (Lot × List Lot)) (lot : Lot) :
    Except CohortGap (Tree.Map Date (Lot × List Lot)) :=
  match lot.acquired with
  | none => .error .acquisitionDateUnknown
  | some acquired =>
    match grouped[acquired]? with
    | none => .ok (grouped.insert acquired (lot, []))
    | some (first, rest) => .ok (grouped.insert acquired (first, rest ++ [lot]))

end Cohort

namespace InstrumentLots

/-- The remaining lots by date of acquisition. -/
def cohorts (l : InstrumentLots) : Except CohortGap (List Cohort) :=
  if !l.unpriced.isZero then .error .acquisitionDateUnknown
  else if l.incomeKindUnknown then .error .incomeKindUnknown
  else if l.gap = some .restoredWithoutBasis then .error .restoredWithoutBasis
  else do
    let grouped ← l.lots.foldlM Cohort.group ∅
    grouped.toList.mapM fun (acquired, first, rest) => Cohort.ofGroup acquired first rest

/-! ### Writes by value -/

def observe (delta : Quantity) (settlement : SettlementKnowledge) (l : InstrumentLots) : InstrumentLots :=
  { l with ownership := l.ownership.observe delta settlement }

def pushLot (lot : Lot) (settlement : SettlementKnowledge) (l : InstrumentLots) : InstrumentLots :=
  { l with
    acquisitions := l.acquisitions.observe lot.acquired
    ownership := l.ownership.observe lot.quantity settlement
    lots := l.lots ++ [lot] }

/-- A reconstructed lot goes to the front of the queue. -/
def insertRestoredLot (lot : Lot) (settlement : SettlementKnowledge) (l : InstrumentLots) : InstrumentLots :=
  { l with
    acquisitions := l.acquisitions.observe lot.acquired
    ownership := l.ownership.observe lot.quantity settlement
    lots := lot :: l.lots }

def markBasisGap (gap : BasisGap) (l : InstrumentLots) : InstrumentLots :=
  { l with gap := some gap, realized := none }

/-! ### Writes in place -/

abbrev Step (α : Type) := Mut InstrumentLots LotError α

/-- Adds to one of the running totals of the entry. -/
def addTotal (total : InstrumentLots → Option Money) (put : Money → InstrumentLots → InstrumentLots)
    (amount : Money) : Step Unit := do
  let l ← Mut.get
  let sum ← Mut.lift (convert .money (accumulate (total l) amount))
  Mut.modify (put sum)

def addReleasedBasis : Money → Step Unit :=
  addTotal releasedBasis fun sum l => { l with releasedBasis := some sum }

def addAcquiredBasis : Money → Step Unit :=
  addTotal acquiredBasis fun sum l => { l with acquiredBasis := some sum }

/-- Adds to the realised result when it is still computable. -/
def addRealised (amount : Money) : Step Unit := do
  let l ← Mut.get
  if l.gap.isSome then pure ()
  else addTotal realized (fun sum l => { l with realized := some sum }) amount

/-- The share of a payment that goes to a lot, and what the lot has received with it. -/
def creditOf (amount : Money) (quantity : Dec) (lot : Lot) : Result LotError (Money × Money) := do
  let received ← reraise .disposal (splitBasis amount lot.quantity quantity)
  let sum ← convert .money (accumulate lot.receivedToDate received)
  return (received, sum)

/-- What is left of a payment and of the quantity it goes to. -/
def leftOf (amount : Money) (quantity : Dec) (received : Money) (taken : Dec) : Result LotError (Money × Dec) := do
  let amount ← convert .money (amount.trySub received)
  let quantity ← convert .numeric (quantity.checkedSub taken)
  return (amount, quantity)

/-- Spreads a payment over the lots by quantity. The last lot takes what is left, and a lot already
    credited stays credited when a later one fails. -/
def allot : Money → Dec → List Lot → Result LotError Unit × List Lot
  | _, _, [] => (.ok (), [])
  | amount, quantity, lot :: lots =>
    if lot.quantity.isZero then
      ((allot amount quantity lots).1, lot :: (allot amount quantity lots).2)
    else
      match creditOf amount quantity lot with
      | .error failure => (.error failure, lot :: lots)
      | .ok (received, sum) =>
        let credited := { lot with receivedToDate := some sum }
        match leftOf amount quantity received lot.quantity with
        | .error failure => (.error failure, credited :: lots)
        | .ok (amount, quantity) => ((allot amount quantity lots).1, credited :: (allot amount quantity lots).2)

/-- The share of a payment that goes to the reconstructed quantity; what is left of payment and
    quantity. -/
def receiveUnpriced (amount : Money) (total : Dec) : Step (Money × Dec) := do
  let l ← Mut.get
  if l.unpriced.isZero then pure (amount, total)
  else
    let share ← Mut.lift (reraise .disposal (splitBasis amount l.unpriced total))
    addTotal unpricedIncome (fun sum l => { l with unpricedIncome := some sum }) share
    Mut.lift (leftOf amount total share l.unpriced)

/-- Allocates a payment to the lots in proportion to quantity. -/
def addReceived (amount : Money) : Step Unit := do
  let l ← Mut.get
  let total ← Mut.lift (convert .numeric l.quantity)
  if total.isZero then
    addTotal unallocatedIncome (fun sum l => { l with unallocatedIncome := some sum }) amount
  else
    let (amount, quantity) ← receiveUnpriced amount total
    Mut.zoom lots (fun lots l => { l with lots }) (allot amount quantity)

/-! ### Acquisition, restoration, disposal -/

def acquire (lot : Lot) (settlement : SettlementKnowledge) : Step Unit := do
  addAcquiredBasis lot.costBasis
  Mut.modify (pushLot lot settlement)

def restorePriced (lot : Lot) (settlement : SettlementKnowledge) : Step Unit := do
  addAcquiredBasis lot.costBasis
  Mut.modify (insertRestoredLot lot settlement)

/-- A quantity without cost makes the realised result uncomputable; the result already there stays. -/
def restoreUnpriced (quantity : Quantity) (settlement : SettlementKnowledge) : Step Unit := do
  let l ← Mut.get
  let unpriced ← Mut.lift (convert .numeric (l.unpriced.checkedAdd quantity))
  Mut.modify fun l =>
    { l with
      unpriced
      gap := some .restoredWithoutBasis
      acquisitions := l.acquisitions.observe none
      ownership := l.ownership.observe quantity settlement }

/-- The reconstructed quantity goes first. Returns what is left to take from the lots. -/
def takeUnpriced (quantity : Quantity) : Step Dec := do
  let l ← Mut.get
  let fromUnpriced := min l.unpriced quantity
  if fromUnpriced.isZero then pure ()
  else
    let unpriced ← Mut.lift (convert .numeric (l.unpriced.checkedSub fromUnpriced))
    Mut.modify fun l => { l with unpriced, realized := none, gap := some .restoredWithoutBasis }
  Mut.lift (convert .numeric (quantity.checkedSub fromUnpriced))

/-- The lots the rule leaves, and the cost it released. -/
def releaseLots (rule : LotDisposalRule) (left : Dec) : Step DisposalResult := do
  let l ← Mut.get
  let result ← Mut.lift (reraise .disposal (rule.apply ⟨l.lots, left⟩))
  Mut.modify fun l => { l with lots := result.remaining }
  addReleasedBasis result.basisReleased
  pure result

/-- Proceeds minus released cost, when the realised result is still computable. -/
def realise (proceeds basisReleased : Money) : Step Unit := do
  let l ← Mut.get
  if l.gap.isSome then pure ()
  else
    let realized ← Mut.lift (convert .money (proceeds.trySub basisReleased))
    addTotal InstrumentLots.realized (fun sum l => { l with realized := some sum }) realized

/-! ### Amortisation -/

/-- The returned cost leaves each lot; the total of what left. -/
def amortiseLots (rule : AmortisationRule) (share : ReturnedShare) :
    Money → List Lot → Result LotError (List Lot × Money)
  | total, [] => .ok ([], total)
  | total, lot :: lots => do
    let returned ← reraise .amortisation (rule.basisReturned lot share)
    let costBasis ← convert .money (lot.costBasis.trySub returned)
    let total ← convert .money (total.tryAdd returned)
    let (rest, total) ← amortiseLots rule share total lots
    return ({ lot with costBasis } :: rest, total)

/-- The cost an amortisation returns: a share of each lot, or nothing and a gap when the share is not
    known. -/
def returnBasis (rule : AmortisationRule) (allocation : BasisAllocation) (currency : CurrencyCode) :
    Step Money := do
  match allocation with
  | .known share _ =>
    let l ← Mut.get
    let (lots, total) ← Mut.lift (amortiseLots rule share (Money.zero currency) l.lots)
    Mut.modify fun l => { l with lots }
    pure total
  | .unknown _ =>
    Mut.modify (markBasisGap .amortisationAllocationUnknown)
    pure (Money.zero currency)

/-- The returned cost joins the released cost; nothing returned starts no total. -/
def addReturned (returned : Money) : Step Unit :=
  if returned.isZero then pure () else addReleasedBasis returned

/-- What the book does to its copy of an entry. -/
def amortise (rule : AmortisationRule) (allocation : BasisAllocation) (compensation : Money) : Step Unit := do
  let returned ← returnBasis rule allocation compensation.currency
  addReceived compensation
  addReturned returned
  let result ← Mut.lift (convert .money (compensation.trySub returned))
  addRealised result

/-! ### Conversion -/

/-- The lot of the successor. The cost moves unchanged. -/
def convertedLot (terms : Conversion) (lot : Lot) (quantity : Quantity) : Lot :=
  { lot with
    instrument := terms.successor
    acquired := match terms.basisTransfer with
      | .carryOver => lot.acquired
      | .restart => some terms.effectiveDate
    quantity }

/-- A lot is scaled by the ratio; the last one takes the rest of the declared quantity. -/
def convertedQuantity (terms : Conversion) (assigned : Dec) (lot : Lot) (last : Bool) : Except NumericError Quantity :=
  if last then terms.quantityOut.checkedSub assigned else lot.quantity.checkedMul terms.ratio

def convertLots (terms : Conversion) : Dec → List Lot → Except NumericError (List Lot)
  | _, [] => .ok []
  | assigned, lot :: lots => do
    let quantity ← convertedQuantity terms assigned lot lots.isEmpty
    let assigned ← assigned.checkedAdd quantity
    let moved ← convertLots terms assigned lots
    return convertedLot terms lot quantity :: moved

/-- The predecessor without its lots. Nothing else of it changes: not the quantity without cost, not the
    gap. -/
def handOver (carried : Money) (delta : Quantity) (settlement : SettlementKnowledge) : Step Unit := do
  Mut.modify fun l => { l with lots := [] }
  addReleasedBasis carried
  Mut.modify (observe delta settlement)

/-- The successor with the moved lots. -/
def takeOver (carried : Money) (moved : List Lot) (quantity : Quantity) (settlement : SettlementKnowledge) :
    Step Unit := do
  addAcquiredBasis carried
  Mut.modify (observe quantity settlement)
  Mut.modify fun l =>
    { l with
      acquisitions := moved.foldl (fun h lot => h.observe lot.acquired) l.acquisitions
      lots := l.lots ++ moved }

end InstrumentLots

/-! ### The book -/

structure LotBook where
  entries : Tree.Map LotKey InstrumentLots
  ruleVersion : Nat
  appliedRule : Option String
  amortisationVersion : Nat
  settlementPolicy : SettlementLagPolicy

namespace LotBook

def new (ruleVersion : Nat) : LotBook := ⟨∅, ruleVersion, none, 1, .v1⟩

def withSettlementLagPolicy (b : LotBook) (policy : SettlementLagPolicy) : LotBook :=
  { b with settlementPolicy := policy }

abbrev Step (α : Type) := Mut LotBook LotError α

/-- The entry under a key, empty when there is none. -/
def lotsAt (b : LotBook) (key : LotKey) : InstrumentLots := b.entries[key]?.getD .empty

def putLots (key : LotKey) (l : InstrumentLots) (b : LotBook) : LotBook :=
  { b with entries := b.entries.insert key l }

/-- Works on the entry under a key, which is there afterwards. -/
def onEntry {α : Type} (key : LotKey) (x : InstrumentLots.Step α) : Step α :=
  Mut.zoom (fun b => b.lotsAt key) (putLots key) x

/-- The entry under a key that must be there. -/
def requireEntry (e : Event) (key : LotKey) : Step InstrumentLots := do
  let b ← Mut.get
  Mut.lift (okOr (.saleWithoutPosition e.id key.instrument) b.entries[key]?)

/-- A corporate action applies to the whole position. -/
def requireWholePosition (e : Event) (key : LotKey) (declared : Quantity) : Step Unit := do
  let l ← requireEntry e key
  let held ← Mut.lift (convert .numeric l.quantity)
  if held = declared then pure ()
  else Mut.lift (.error (.error (.quantityMismatch held declared)))

def applyIncome (e : Event) (instrument : InstrumentId) (amount : Money) (kind : Option IncomeKind) : Step Unit :=
  onEntry ⟨e.account, instrument⟩ <|
    match kind with
    | some .coupon => InstrumentLots.addReceived amount
    | some .dividend | some .depositInterest => pure ()
    | none => Mut.modify fun l => { l with incomeKindUnknown := true }

def dispose (e : Event) (key : LotKey) (quantity : Quantity) (proceeds : Money) (rules : RuleRegistry)
    (settlement : SettlementKnowledge) : Step Unit := do
  let delta ← Mut.lift (convert .numeric quantity.checkedNeg)
  let b ← Mut.get
  let rule ← Mut.lift (okOr (.unknownRule b.ruleVersion) (rules.disposalRule b.ruleVersion))
  let _ ← requireEntry e key
  let left ← onEntry key (InstrumentLots.takeUnpriced quantity)
  if left.isZero then onEntry key (Mut.modify (InstrumentLots.observe delta settlement))
  else
    let result ← onEntry key (InstrumentLots.releaseLots rule left)
    Mut.modify fun b => { b with appliedRule := some result.rule }
    onEntry key (InstrumentLots.realise proceeds result.basisReleased)
    onEntry key (Mut.modify (InstrumentLots.observe delta settlement))

/-- The cost of a purchase has the fees in it and the accrued interest not. -/
def applyTrade (e : Event) (terms : Trade) (settlement : SettlementKnowledge) (rules : RuleRegistry) :
    Step Unit := do
  let key : LotKey := ⟨e.account, terms.instrument⟩
  match terms.side with
  | .buy =>
    let basis ← Mut.lift (convert .money (terms.gross.withOptional Money.tryAdd terms.fee))
    let basis ← Mut.lift (convert .money (basis.withOptional Money.tryAdd terms.basisFee))
    onEntry key (InstrumentLots.acquire
      ⟨⟨e.id.uuid⟩, terms.instrument, e.dates.trade, terms.quantity, basis, some basis, terms.accruedInterest, none⟩
      settlement)
  | .sell =>
    let proceeds ← Mut.lift (convert .money (terms.gross.withOptional Money.trySub terms.fee))
    let proceeds ← Mut.lift (convert .money (proceeds.withOptional Money.trySub terms.basisFee))
    dispose e key terms.quantity proceeds rules settlement

def restore (e : Event) (instrument : InstrumentId) (quantity : Quantity) (costBasis : Option Money)
    (acquired : Option Date) (settlement : SettlementKnowledge) : Step Unit :=
  onEntry ⟨e.account, instrument⟩ <|
    match costBasis with
    | some basis =>
      InstrumentLots.restorePriced ⟨⟨e.id.uuid⟩, instrument, acquired, quantity, basis, some basis, none, none⟩
        settlement
    | none => InstrumentLots.restoreUnpriced quantity settlement

/-- Works on a copy of the entry and replaces the whole: a failure leaves the entry alone. -/
def applyAmortisation (e : Event) (terms : PrincipalReturn) (allocation : BasisAllocation) (rules : RuleRegistry) :
    Step Unit := do
  let key : LotKey := ⟨e.account, terms.instrument⟩
  requireWholePosition e key terms.quantity
  let b ← Mut.get
  let rule ← Mut.lift (okOr (.unknownAmortisationRule b.amortisationVersion)
    (rules.amortisationRule b.amortisationVersion))
  let l ← requireEntry e key
  let next ← Mut.lift (Mut.onCopy (InstrumentLots.amortise rule allocation terms.compensation) l)
  Mut.modify (putLots key next)

def applyConversion (e : Event) (terms : Conversion) (settlement : SettlementKnowledge) : Step Unit := do
  let source : LotKey := ⟨e.account, terms.predecessor⟩
  requireWholePosition e source terms.quantityIn
  let delta ← Mut.lift (convert .numeric terms.quantityIn.checkedNeg)
  let l ← requireEntry e source
  let moved ← Mut.lift (convert .numeric (InstrumentLots.convertLots terms Dec.zero l.lots))
  match l.lots with
  | [] => pure ()
  | first :: _ =>
    let carried ← Mut.lift (convert .money (Money.sum (l.lots.map Lot.costBasis) first.costBasis.currency))
    let emptied ← Mut.lift (Mut.onCopy (InstrumentLots.handOver carried delta settlement) l)
    Mut.modify (putLots source emptied)
    onEntry ⟨e.account, terms.successor⟩ (InstrumentLots.takeOver carried moved terms.quantityOut settlement)

def applyCorporateAction (e : Event) (action : CorporateAction) (settlement : SettlementKnowledge)
    (rules : RuleRegistry) : Step Unit :=
  match action with
  | .partialRedemption terms allocation => applyAmortisation e terms allocation rules
  | .redemption terms => do
    let key : LotKey := ⟨e.account, terms.instrument⟩
    requireWholePosition e key terms.quantity
    dispose e key terms.quantity terms.compensation rules settlement
  | .conversion terms => applyConversion e terms settlement

def applyOfferExercise (e : Event) (action : OfferExerciseAction) (settlement : SettlementKnowledge)
    (rules : RuleRegistry) : Step Unit :=
  match action with
  | .submitted .. | .cancelled .. => pure ()
  | .settled terms => do
    let proceeds ← Mut.lift (convert .money (terms.gross.withOptional Money.tryAdd terms.accruedInterest))
    let proceeds ← Mut.lift (convert .money (proceeds.withOptional Money.trySub terms.fee))
    dispose e ⟨e.account, terms.instrument⟩ terms.quantity proceeds rules settlement

/-- The day a reconstructed position was acquired on, when that is known and not a guess. -/
def acquiredOn (assertions : OpeningAssertions) : Option Date :=
  match assertions.acquisitionDate, assertions.acquisitionDateCertainty with
  | some day, .known => some day
  | _, _ => none

def apply (e : Event) (rules : RuleRegistry) : Step Unit := do
  let b ← Mut.get
  let settlement := b.settlementPolicy.knowledge e.dates e.provenance.parserVersion
  match e.kind with
  | .trade terms => applyTrade e terms settlement rules
  | .openingPosition instrument quantity costBasis assertions =>
    let acquired := acquiredOn assertions
    let settlement := match acquired with
      | some day => SettlementKnowledge.exact day
      | none => .unbounded
    restore e instrument quantity costBasis acquired settlement
  | .income (some instrument) gross kind => applyIncome e instrument gross kind
  | .income none _ _ => pure ()
  | .corporateAction action => applyCorporateAction e action settlement rules
  | .offerExercise action => applyOfferExercise e action settlement rules
  | .cashIn .. | .cashOut .. | .refund .. | .cashTransfer .. | .ownAccountMovement ..
  | .unresolvedOwnAccountMovement .. | .fee .. | .tax .. | .openingCash .. | .statedSecuritiesValue ..
  | .valuation .. | .controlAssertion .. | .importCoverageGap .. => pure ()

end LotBook
end Iaam
