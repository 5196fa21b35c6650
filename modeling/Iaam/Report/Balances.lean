import Iaam.Projection.State
import Iaam.Reconciliation.Anchor

/-! The balances answer and the accounts it is about (`report/population.rs`, `report/balances.rs`). -/

namespace Iaam

/-! ### The population -/

inductive AccountStanding where
  | covered | outsideByDecision | outsidePlacedElsewhere | outsideUndecided
  deriving DecidableEq, Repr

structure PopulationAccount where
  account : AccountId
  standing : AccountStanding
  retirement : Option Date
  deriving DecidableEq, Repr

def PopulationAccount.retiredBy (entry : PopulationAccount) (asOf : Date) : Bool := entry.retirement.any (· ≤ asOf)

structure ReportPopulation where
  accounts : List PopulationAccount
  deriving DecidableEq, Repr

namespace ReportPopulation

def covered (population : ReportPopulation) : List PopulationAccount :=
  population.accounts.filter fun entry => entry.standing = .covered

/-- The population with every retirement taken back. -/
def unretired (population : ReportPopulation) : ReportPopulation :=
  ⟨population.accounts.map fun entry => { entry with retirement := none }⟩

end ReportPopulation

/-! ### The rows -/

/-- A cash figure, and whether its opening is part of it. -/
structure AccountCash where
  money : Money
  opening : OpeningIncorporation
  deriving DecidableEq, Repr

inductive CashFigure where
  | balance (money : Money)
  | movement (money : Money)
  | mixed (balance movement : Money)
  deriving DecidableEq, Repr

namespace CashFigure

def forAccount (cash : AccountCash) : CashFigure :=
  match cash.opening with
  | .incorporated => .balance cash.money
  | .unincorporated => .movement cash.money

def currency : CashFigure → CurrencyCode
  | balance money | movement money | mixed money _ => money.currency

def balance? : CashFigure → Option Money
  | balance money | mixed money _ => some money
  | movement _ => none

def movement? : CashFigure → Option Money
  | movement money | mixed _ money => some money
  | balance _ => none

end CashFigure

structure StatedSecuritiesValue where
  amount : Money
  asOf : Date
  deriving DecidableEq, Repr

/-- Reconciliation and the reports of the period are not read by the asset snapshot. -/
structure AccountBalanceRow where
  account : AccountId
  cash : List AccountCash
  positions : List (PositionKey × Quantity)
  statedSecurities : Option StatedSecuritiesValue
  deriving DecidableEq, Repr

structure BalancesReport where
  accounts : List AccountBalanceRow
  population : ReportPopulation
  deriving DecidableEq, Repr

namespace Balances

def iterCash (b : Balances) : List (AccountId × Money) :=
  b.cash.toList.map fun entry => (entry.1.account, ⟨entry.2, entry.1.currency⟩)

def iterPositions (b : Balances) : List (PositionKey × Quantity) := b.positions.toList

end Balances

/-- The row of one covered account (`scenarios/reports.rs`). What the owner stated of the securities of each
    account is given. -/
def accountBalanceRow (balances : Balances) (anchors : OpeningAnchors)
    (stated : AccountId → Option StatedSecuritiesValue) (account : AccountId) : AccountBalanceRow where
  account := account
  cash := (balances.iterCash.filter fun entry => entry.1 = account).map fun entry =>
    ⟨entry.2, anchors.cashIncorporation account entry.2.currency⟩
  positions := balances.iterPositions.filter fun entry => entry.1.account = account
  statedSecurities := stated account

/-- One row for each covered account, in the order of the population. -/
def balancesReport (balances : Balances) (anchors : OpeningAnchors)
    (stated : AccountId → Option StatedSecuritiesValue) (population : ReportPopulation) : BalancesReport where
  accounts := population.covered.map fun entry => accountBalanceRow balances anchors stated entry.account
  population := population

end Iaam
