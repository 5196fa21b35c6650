import Iaam.Event.Kind

/-! Versioned rules of the lot book (`rules/lot_disposal.rs`, `rules/amortisation.rs`, `rules/mod.rs`). -/

namespace Iaam
open Outcome

/-- A purchase batch. -/
structure Lot where
  id : LotId
  instrument : InstrumentId
  acquired : Option Date
  quantity : Quantity
  costBasis : Money
  acquisitionBasis : Option Money
  accruedInterestPaid : Option Money
  receivedToDate : Option Money
  deriving DecidableEq, Repr

structure DisposalInput where
  lots : List Lot
  quantity : Quantity

structure DisposedPart where
  lot : LotId
  quantity : Quantity
  basisReleased : Money
  acquired : Option Date
  accruedInterestReleased : Option Money
  deriving DecidableEq, Repr

structure DisposalResult where
  rule : String
  disposed : List DisposedPart
  remaining : List Lot
  basisReleased : Money
  deriving DecidableEq, Repr

inductive DisposalError where
  | insufficientQuantity (requested available : Dec)
  | mixedCurrencies
  | noLots
  | money (e : MoneyError)
  deriving DecidableEq, Repr

/-! ### Splitting an amount by quantity -/

/-- The share of an amount that goes with a part of a quantity, rounded half to even once. -/
def splitBasis (total : Money) (takenQty lotQty : Dec) : Result DisposalError Money := do
  let minor ← orPanic (Dec.exact total.amount.raw)
  let product ← decMul minor takenQty
  let scaled ← decDiv product lotQty
  match PostedMinor.ofInt (roundHalfEven scaled.val) with
  | some value => .ok ⟨value, total.currency⟩
  | none => .error (.error (.money .overflow))

/-- The taken and the kept share. -/
def splitOptionalBasis (total : Option Money) (takenQty lotQty : Dec) :
    Result DisposalError (Option Money × Option Money) :=
  match total with
  | none => .ok (none, none)
  | some total => do
    let taken ← splitBasis total takenQty lotQty
    let kept ← convert .money (total.trySub taken)
    return (some taken, some kept)

/-! ### First in, first out -/

def disposeWhole (lot : Lot) : DisposedPart :=
  ⟨lot.id, lot.quantity, lot.costBasis, lot.acquired, lot.accruedInterestPaid⟩

/-- A lot that is larger than what is left to dispose of: the disposed part, and the lot that stays with
    the rounding remainder. -/
def splitLot (lot : Lot) (left : Dec) : Result DisposalError (DisposedPart × Lot) := do
  let takenBasis ← splitBasis lot.costBasis left lot.quantity
  let keptBasis ← convert .money (lot.costBasis.trySub takenBasis)
  let (takenInterest, keptInterest) ← splitOptionalBasis lot.accruedInterestPaid left lot.quantity
  let (_, keptAcquisition) ← splitOptionalBasis lot.acquisitionBasis left lot.quantity
  let (_, keptReceived) ← splitOptionalBasis lot.receivedToDate left lot.quantity
  let keptQuantity ← decSub lot.quantity left
  return (⟨lot.id, left, takenBasis, lot.acquired, takenInterest⟩,
    { lot with
      quantity := keptQuantity
      costBasis := keptBasis
      acquisitionBasis := keptAcquisition
      accruedInterestPaid := keptInterest
      receivedToDate := keptReceived })

/-- The loop over the lots, with what is left to dispose of: the disposed parts and the lots that stay. -/
def fifoLoop : Dec → List Lot → Result DisposalError (List DisposedPart × List Lot)
  | _, [] => .ok ([], [])
  | left, lot :: lots =>
    if left.isZero then do
      let (disposed, remaining) ← fifoLoop left lots
      return (disposed, lot :: remaining)
    else if lot.quantity ≤ left then do
      let left' ← decSub left lot.quantity
      let (disposed, remaining) ← fifoLoop left' lots
      return (disposeWhole lot :: disposed, remaining)
    else do
      let (part, kept) ← splitLot lot left
      let (disposed, remaining) ← fifoLoop Dec.zero lots
      return (part :: disposed, kept :: remaining)

def fifoV1Id : String := "fifo/214.1/v1"

def fifoV1Apply (input : DisposalInput) : Result DisposalError DisposalResult :=
  match input.lots with
  | [] => .error (.error .noLots)
  | first :: _ =>
    let currency := first.costBasis.currency
    if input.lots.any fun lot => lot.costBasis.currency ≠ currency then .error (.error .mixedCurrencies)
    else do
      let available ← decSum (input.lots.map Lot.quantity)
      if available < input.quantity then .error (.error (.insufficientQuantity input.quantity available))
      else
        let (disposed, remaining) ← fifoLoop input.quantity input.lots
        let basisReleased ← convert .money (Money.sum (disposed.map DisposedPart.basisReleased) currency)
        return ⟨fifoV1Id, disposed, remaining, basisReleased⟩

/-! ### The registry -/

/-- The disposal strategies there are: the registry is closed. -/
inductive LotDisposalRule where
  | fifoV1
  deriving DecidableEq, Repr

def LotDisposalRule.apply : LotDisposalRule → DisposalInput → Result DisposalError DisposalResult
  | fifoV1 => fifoV1Apply

inductive AmortisationError where
  | numeric (e : NumericError)
  | disposal (e : DisposalError)
  deriving DecidableEq, Repr

/-- The amortisation strategies there are. -/
inductive AmortisationRule where
  | proRataV1
  deriving DecidableEq, Repr

def AmortisationRule.basisReturned : AmortisationRule → Lot → ReturnedShare → Result AmortisationError Money
  | proRataV1, lot, share => reraise .disposal (splitBasis lot.costBasis share.inner Dec.one)

/-- The rules by version: the two families the lot book reads. -/
structure RuleRegistry where
  lotRules : Tree.Map Nat LotDisposalRule
  amortisationRules : Tree.Map Nat AmortisationRule

namespace RuleRegistry

def withDefaults : RuleRegistry where
  lotRules := (∅ : Tree.Map Nat LotDisposalRule).insert 1 .fifoV1
  amortisationRules := (∅ : Tree.Map Nat AmortisationRule).insert 1 .proRataV1

def disposalRule (r : RuleRegistry) (version : Nat) : Option LotDisposalRule := r.lotRules[version]?
def amortisationRule (r : RuleRegistry) (version : Nat) : Option AmortisationRule := r.amortisationRules[version]?

end RuleRegistry
end Iaam
