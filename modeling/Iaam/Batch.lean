import Iaam.Event.Kind

/-! A batch of cash movements and the figures its source printed for it (`batch.rs`): the totals of the batch by account and
currency, and each stated figure beside the one that the batch comes to. -/

namespace Iaam
namespace Batch

/-- An account and a currency. -/
abbrev Key := AccountId ×ₗ CurrencyCode

structure BatchMovement where
  account : AccountId
  amount : Money
  date : Option Date
  deriving DecidableEq, Repr

def BatchMovement.key (m : BatchMovement) : Key := toLex (m.account, m.amount.currency)

structure BatchTotal where
  account : AccountId
  currency : CurrencyCode
  rows : Nat
  debit : PostedMinor
  credit : PostedMinor
  net : PostedMinor
  deriving DecidableEq, Repr

def BatchTotal.key (t : BatchTotal) : Key := toLex (t.account, t.currency)

/-! ### The totals of a batch -/

/-- What was folded under one key. -/
structure Bucket where
  rows : Nat
  debit : Money
  credit : Money
  deriving DecidableEq, Repr

def Bucket.empty (currency : CurrencyCode) : Bucket := ⟨0, .zero currency, .zero currency⟩

/-- What leaves is subtracted from zero and not negated. -/
def Bucket.add (bucket : Bucket) (amount : Money) : Except MoneyError Bucket :=
  if 0 ≤ amount.amount.raw then do
    let debit ← bucket.debit.tryAdd amount
    return { bucket with rows := bucket.rows + 1, debit }
  else do
    let credit ← bucket.credit.trySub amount
    return { bucket with rows := bucket.rows + 1, credit }

def foldMovement (folded : Tree.Map Key Bucket) (m : BatchMovement) : Except MoneyError (Tree.Map Key Bucket) := do
  let bucket ← (folded[m.key]?.getD (.empty m.amount.currency)).add m.amount
  return folded.insert m.key bucket

def totalOf (entry : Key × Bucket) : Except MoneyError BatchTotal := do
  let net ← entry.2.debit.trySub entry.2.credit
  return ⟨(ofLex entry.1).1, (ofLex entry.1).2, entry.2.rows, entry.2.debit.amount, entry.2.credit.amount, net.amount⟩

/-- The dates of the movements are not read. -/
def total (movements : List BatchMovement) : Except MoneyError (List BatchTotal) := do
  let folded ← movements.foldlM foldMovement ∅
  folded.toList.mapM totalOf

/-! ### The control section of a source -/

structure ControlSection where
  account : AccountId
  currency : CurrencyCode
  period : AssertionPeriod
  opening : Option PostedMinor
  closing : Option PostedMinor
  debitTurnover : Option PostedMinor
  creditTurnover : Option PostedMinor
  deriving DecidableEq, Repr

def ControlSection.key (s : ControlSection) : Key := toLex (s.account, s.currency)

inductive ControlFigure where
  | closingBalance | debitTurnover | creditTurnover
  deriving DecidableEq, Repr

/-- Why a stated figure has no counterpart in the batch. -/
inductive NoCounterpart where
  | openingBalanceNotStated
  deriving DecidableEq, Repr

inductive ControlCheck where
  | matched (figure : ControlFigure) (claimed observed : PostedMinor)
  | mismatched (figure : ControlFigure) (claimed observed delta : PostedMinor)
  | notChecked (figure : ControlFigure) (claimed : PostedMinor) (reason : NoCounterpart)
  deriving DecidableEq, Repr

namespace ControlCheck

def figure : ControlCheck → ControlFigure
  | matched figure _ _ | mismatched figure _ _ _ | notChecked figure _ _ => figure

def isMismatch : ControlCheck → Bool
  | mismatched .. => true
  | matched .. | notChecked .. => false

end ControlCheck

/-- How the movements sit in the interval of a section. -/
structure IntervalFit where
  outside : Nat
  undated : Nat
  span : Option (Date × Date)
  deriving DecidableEq, Repr

def IntervalFit.misplaced (fit : IntervalFit) : Nat := fit.outside + fit.undated

structure ControlComparison where
  account : AccountId
  currency : CurrencyCode
  stated : Option ControlSection
  observed : BatchTotal
  checks : List ControlCheck
  fit : Option IntervalFit
  deriving DecidableEq, Repr

def ControlComparison.key (c : ControlComparison) : Key := toLex (c.account, c.currency)

/-- One figure beside the other, with no tolerance. -/
def checked (figure : ControlFigure) (claimed observed : PostedMinor) (currency : CurrencyCode) :
    Except MoneyError ControlCheck :=
  if claimed = observed then .ok (.matched figure claimed observed)
  else do
    let delta ← (⟨claimed, currency⟩ : Money).trySub ⟨observed, currency⟩
    return .mismatched figure claimed observed delta.amount

/-- The check of a turnover, where it was stated. -/
def turnoverCheck (figure : ControlFigure) (stated : Option PostedMinor) (observed : PostedMinor)
    (currency : CurrencyCode) : Except MoneyError (List ControlCheck) :=
  match stated with
  | none => .ok []
  | some claimed => do
    let check ← checked figure claimed observed currency
    return [check]

/-- A closing balance is checked against the opening one and what the batch moves. -/
def closingCheck (s : ControlSection) (net : PostedMinor) : Except MoneyError (List ControlCheck) :=
  match s.closing, s.opening with
  | none, _ => .ok []
  | some claimed, none => .ok [.notChecked .closingBalance claimed .openingBalanceNotStated]
  | some claimed, some opening => do
    let derived ← (⟨opening, s.currency⟩ : Money).tryAdd ⟨net, s.currency⟩
    let check ← checked .closingBalance claimed derived.amount s.currency
    return [check]

def checksFor (s : ControlSection) (observed : BatchTotal) : Except MoneyError (List ControlCheck) := do
  let debit ← turnoverCheck .debitTurnover s.debitTurnover observed.debit s.currency
  let credit ← turnoverCheck .creditTurnover s.creditTurnover observed.credit s.currency
  let closing ← closingCheck s observed.net
  return debit ++ credit ++ closing

def IntervalFit.add (period : AssertionPeriod) (fit : IntervalFit) (m : BatchMovement) : IntervalFit :=
  match m.date with
  | none => { fit with undated := fit.undated + 1 }
  | some date =>
    if period.contains date then fit
    else
      { fit with
        outside := fit.outside + 1
        span := match fit.span with
          | none => some (date, date)
          | some (first, last) => some (min first date, max last date) }

def fitOf (s : ControlSection) (movements : List BatchMovement) : IntervalFit :=
  (movements.filter fun m => m.account = s.account && m.amount.currency = s.currency).foldl (IntervalFit.add s.period)
    ⟨0, 0, none⟩

/-- The keys of either side, in their order. -/
def keysOf (totals : List BatchTotal) (sections : List ControlSection) : List Key :=
  ((totals.map BatchTotal.key ++ sections.map ControlSection.key).foldl (fun keys key => keys.insert key)
    (∅ : Tree.Set Key)).toList

def compareKey (sections : List ControlSection) (movements : List BatchMovement) (totals : List BatchTotal) (key : Key) :
    Except MoneyError ControlComparison := do
  let (account, currency) := ofLex key
  let stated := sections.find? fun s => s.account = account && s.currency = currency
  let observed := (totals.find? fun t => t.account = account && t.currency = currency).getD
    ⟨account, currency, 0, .zero, .zero, .zero⟩
  let checks ← match stated with
    | some s => checksFor s observed
    | none => .ok []
  return ⟨account, currency, stated, observed, checks, stated.map fun s => fitOf s movements⟩

/-- One comparison for each key of either side. -/
def compare (sections : List ControlSection) (movements : List BatchMovement) :
    Except MoneyError (List ControlComparison) := do
  let totals ← total movements
  (keysOf totals sections).mapM (compareKey sections movements totals)

end Batch
end Iaam
