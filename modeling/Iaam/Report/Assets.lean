import Iaam.Quotation
import Iaam.Report.Balances

/-! What the owner holds at a date, by class of cash (`report/assets.rs`). The caveats are not modelled. -/

namespace Iaam
namespace Assets

inductive AssetSnapshotError where
  | money (e : MoneyError)
  | numeric (e : NumericError)
  deriving DecidableEq, Repr

/-- The code of the class of cash the owner declared, `⊥` when he has not said. `⊥` comes first. -/
abbrev CashClass := WithBot String

structure AssetAccount where
  account : AccountId
  cashClass : CashClass
  cash : List AccountCash
  positions : List (PositionKey × Quantity)
  statedSecurities : Option StatedSecuritiesValue

structure CashClassTotal where
  cashClass : CashClass
  accounts : List AccountId
  totals : List CashFigure

structure CashSide where
  classes : List CashClassTotal
  totals : List CashFigure

structure HoldingValue where
  instrument : InstrumentId
  quantity : Quantity
  price : PriceDecision
  value : Option CalcMoney

structure StatedSecurities where
  account : AccountId
  amount : Money
  asOf : Date

structure PositionsSide where
  holdings : List HoldingValue
  accountsWithoutPositionFacts : List AccountId
  stated : List StatedSecurities
  oldestPriceDate : Option Date
  totals : List CalcMoney
  statedTotals : List Money

structure AssetSnapshot where
  asOf : Date
  cash : CashSide
  positions : PositionsSide
  total : List CalcMoney
  accounts : List AssetAccount
  population : ReportPopulation

/-- The channels of the prices and the coordinate they were read at. -/
structure SnapshotPrices where
  board : PriceBoard
  market : List PriceCandidate
  schedules : Tree.Map InstrumentId Bond.BondSchedule
  coordinate : KnowledgeCoordinate

/-! ### The rows -/

/-- The owner says the product has ceased, and the cash and the positions of the row are all zero. The stated
    value of the securities is not looked at. -/
def retiredAndEmpty (population : ReportPopulation) (asOf : Date) (row : AccountBalanceRow) : Bool :=
  (population.accounts.any fun entry => entry.account = row.account && entry.retiredBy asOf) &&
    (row.cash.all fun cash => cash.money.isZero) && row.positions.all fun entry => entry.2.isZero

def assetAccount (classes : Tree.Map AccountId String) (row : AccountBalanceRow) : AssetAccount where
  account := row.account
  cashClass := classes[row.account]?
  cash := row.cash
  positions := row.positions
  statedSecurities := row.statedSecurities

/-! ### Cash -/

/-- The cash of one currency while the fold runs: balances and movements apart. -/
structure CashParts where
  balance : Option Money
  movement : Option Money

namespace CashParts

def empty : CashParts := ⟨none, none⟩

/-- Adds one part of a figure, when the figure has it. -/
def accumulatePart (slot : Option Money) : Option Money → Except AssetSnapshotError (Option Money)
  | none => .ok slot
  | some money => do
    let sum ← (accumulate slot money).mapError .money
    return some sum

def add (parts : CashParts) (figure : CashFigure) : Except AssetSnapshotError CashParts := do
  let balance ← accumulatePart parts.balance figure.balance?
  let movement ← accumulatePart parts.movement figure.movement?
  return ⟨balance, movement⟩

def finish : CashParts → Option CashFigure
  | ⟨some balance, some movement⟩ => some (.mixed balance movement)
  | ⟨some balance, none⟩ => some (.balance balance)
  | ⟨none, some movement⟩ => some (.movement movement)
  | ⟨none, none⟩ => none

end CashParts

/-- The parts of the cash, by currency. -/
abbrev CashTotals := Tree.Map CurrencyCode CashParts

def addFigure (totals : CashTotals) (figure : CashFigure) : Except AssetSnapshotError CashTotals := do
  let parts ← (totals[figure.currency]?.getD .empty).add figure
  return totals.insert figure.currency parts

def finishTotals (totals : CashTotals) : List CashFigure := totals.toList.filterMap fun entry => entry.2.finish

structure ClassAccumulator where
  accounts : List AccountId
  totals : CashTotals

structure CashFold where
  groups : Tree.Map CashClass ClassAccumulator
  whole : CashTotals

/-- One figure of a row goes to its class and to the whole. -/
def foldFigure (totals : CashTotals × CashTotals) (cash : AccountCash) :
    Except AssetSnapshotError (CashTotals × CashTotals) := do
  let group ← addFigure totals.1 (.forAccount cash)
  let whole ← addFigure totals.2 (.forAccount cash)
  return (group, whole)

def CashFold.group (acc : CashFold) (cashClass : CashClass) : ClassAccumulator := acc.groups[cashClass]?.getD ⟨[], ∅⟩

def foldRow (acc : CashFold) (row : AssetAccount) : Except AssetSnapshotError CashFold := do
  let entry := acc.group row.cashClass
  let totals ← row.cash.foldlM foldFigure (entry.totals, acc.whole)
  return ⟨acc.groups.insert row.cashClass ⟨entry.accounts ++ [row.account], totals.1⟩, totals.2⟩

def CashFold.finish (acc : CashFold) : CashSide where
  classes := acc.groups.toList.map fun entry => ⟨entry.1, entry.2.accounts, finishTotals entry.2.totals⟩
  totals := finishTotals acc.whole

def foldCash (accounts : List AssetAccount) : Except AssetSnapshotError CashSide := do
  let acc ← accounts.foldlM foldRow ⟨∅, ∅⟩
  return acc.finish

/-! ### Positions -/

/-- The figure of a decision, with its currency, its unit and its date. -/
def quoted : PriceDecision → Option (Dec × CurrencyCode × QuotationBasis × Date)
  | .selected price =>
    if price.candidate.basisEvidenceContradicts then none
    else some (price.candidate.price, price.candidate.currency, price.candidate.basis, price.candidate.tradeDate)
  | .legacyDerived _ price => price.map fun price => (price.price, price.currency, .moneyPerUnit, price.asOf)
  | .uncovered _ => none

/-- Money for one security; whatever fails leaves the holding without a value. -/
def moneyPerUnit (quote : Dec × CurrencyCode × QuotationBasis × Date)
    (schedules : Tree.Map InstrumentId Bond.BondSchedule) (instrument : InstrumentId) (asOf : Date) :
    Option (Dec × CurrencyCode) :=
  match quote with
  | (price, currency, .percentOfRemainingFace, _) => do
    let schedule ← schedules[instrument]?
    let face ← (Bond.remainingPrincipal schedule asOf).toOption
    (QuotationV1.moneyPerUnit .percentOfRemainingFace price currency (some face)).toOption
  | (price, currency, basis, _) => (QuotationV1.moneyPerUnit basis price currency none).toOption

def addQuantity (quantities : Tree.Map InstrumentId Quantity) (entry : PositionKey × Quantity) :
    Except AssetSnapshotError (Tree.Map InstrumentId Quantity) := do
  let sum ← ((quantities[entry.1.instrument]?.getD .zero).checkedAdd entry.2).mapError .numeric
  return quantities.insert entry.1.instrument sum

/-- The quantity of each instrument over the accounts. -/
def foldQuantities (accounts : List AssetAccount) : Except AssetSnapshotError (Tree.Map InstrumentId Quantity) :=
  accounts.foldlM (fun quantities row => row.positions.foldlM addQuantity quantities) ∅

def addCalc (totals : Tree.Map CurrencyCode CalcMoney) (money : CalcMoney) :
    Except AssetSnapshotError (Tree.Map CurrencyCode CalcMoney) := do
  let sum ← ((totals[money.currency]?.getD ⟨.zero, money.currency⟩).checkedAdd money).mapError .money
  return totals.insert money.currency sum

/-- The decision of the price of an instrument, at the coordinate of the snapshot. -/
def priceOf (prices : SnapshotPrices) (asOf : Date) (instrument : InstrumentId) : PriceDecision :=
  decidePrice ⟨prices.board, prices.market, prices.coordinate.sourcePriorityVersion⟩
    ⟨instrument, asOf, prices.coordinate.knowledgeAsOf⟩

/-- The earlier of the oldest price so far and the date of one more. -/
def olderPrice (known : Option Date) (tradeDate : Date) : Date :=
  match known with
  | some known => if known ≤ tradeDate then known else tradeDate
  | none => tradeDate

structure HoldingFold where
  holdings : List HoldingValue
  totals : Tree.Map CurrencyCode CalcMoney
  oldestPriceDate : Option Date

def foldHolding (prices : SnapshotPrices) (asOf : Date) (acc : HoldingFold) (entry : InstrumentId × Quantity) :
    Except AssetSnapshotError HoldingFold := do
  let (instrument, quantity) := entry
  let price := priceOf prices asOf instrument
  let quote := quoted price
  match quote, quote.bind fun quote => moneyPerUnit quote prices.schedules instrument asOf with
  | some quote, some (perUnit, currency) =>
    let value ← ((⟨perUnit, currency⟩ : CalcMoney).checkedMul quantity).mapError .money
    let totals ← addCalc acc.totals value
    return ⟨acc.holdings ++ [⟨instrument, quantity, price, some value⟩], totals,
      some (olderPrice acc.oldestPriceDate quote.2.2.2)⟩
  | _, _ => return { acc with holdings := acc.holdings ++ [⟨instrument, quantity, price, none⟩] }

/-- The stated value of a row that counts: the journal has no position of the account. -/
def activeStated (row : AssetAccount) : Option StatedSecurities :=
  if row.positions = [] then
    row.statedSecurities.map fun value => ⟨row.account, value.amount, value.asOf⟩
  else none

/-- The stated amounts of one currency, in the order of the rows. -/
def pushAmount (byCurrency : Tree.Map CurrencyCode (List Money)) (amount : Money) :
    Tree.Map CurrencyCode (List Money) :=
  byCurrency.insert amount.currency (byCurrency[amount.currency]?.getD [] ++ [amount])

def foldPositions (accounts : List AssetAccount) (prices : SnapshotPrices) (asOf : Date) :
    Except AssetSnapshotError PositionsSide := do
  let quantities ← foldQuantities accounts
  let acc ← quantities.toList.foldlM (foldHolding prices asOf) ⟨[], ∅, none⟩
  let stated := accounts.filterMap activeStated
  let byCurrency := (stated.map StatedSecurities.amount).foldl pushAmount ∅
  let statedTotals ← (byCurrency.toList.mapM fun entry => Money.sum entry.2 entry.1).mapError .money
  return {
    holdings := acc.holdings
    accountsWithoutPositionFacts :=
      (accounts.filter fun row => row.cashClass = ⊥ ∧ row.positions = []).map AssetAccount.account
    stated := stated
    oldestPriceDate := acc.oldestPriceDate
    totals := acc.totals.toList.map (·.2)
    statedTotals := statedTotals }

/-! ### The whole -/

/-- The currencies whose cash is not all balances: they have no whole. -/
def withoutAWhole (cash : CashSide) (currency : CurrencyCode) : Bool :=
  cash.totals.any fun figure => figure.currency = currency && figure.movement?.isSome

def foldTotal (cash : CashSide) (positions : PositionsSide) : Except AssetSnapshotError (List CalcMoney) := do
  let balances := cash.totals.filterMap fun figure =>
    match figure with
    | .balance money => some (⟨money.toCalcDec, money.currency⟩ : CalcMoney)
    | .movement _ | .mixed .. => none
  let quotes := positions.totals.filter fun money => !withoutAWhole cash money.currency
  let stated := (positions.statedTotals.filter fun money => !withoutAWhole cash money.currency).map
    fun money => (⟨money.toCalcDec, money.currency⟩ : CalcMoney)
  let total ← (balances ++ quotes ++ stated).foldlM addCalc ∅
  return total.toList.map (·.2)

def assetSnapshot (asOf : Date) (report : BalancesReport) (classes : Tree.Map AccountId String)
    (prices : SnapshotPrices) : Except AssetSnapshotError AssetSnapshot := do
  let accounts := (report.accounts.filter fun row => !retiredAndEmpty report.population asOf row).map
    (assetAccount classes)
  let cash ← foldCash accounts
  let positions ← foldPositions accounts prices asOf
  let total ← foldTotal cash positions
  return ⟨asOf, cash, positions, total, accounts, report.population⟩

end Assets
end Iaam
