import Iaam.Event.Envelope

/-! Cash balances and positions (`projection/balances.rs`), read off the legs of the events whatever their
kind. -/

namespace Iaam

/-- A position is an account and an instrument. The key of the lots has the same two fields, and the code
    converts one into the other field by field. -/
structure PositionKey where
  account : AccountId
  instrument : InstrumentId
  deriving DecidableEq, Repr

abbrev LotKey := PositionKey

instance : LinearOrder PositionKey :=
  LinearOrder.lift' (fun k => toLex (k.account, k.instrument)) fun a b h => by
    cases a
    cases b
    simpa using h

/-- The account and the currency of a cash balance. -/
structure CashKey where
  account : AccountId
  currency : CurrencyCode
  deriving DecidableEq, Repr

instance : LinearOrder CashKey :=
  LinearOrder.lift' (fun k => toLex (k.account, k.currency)) fun a b h => by
    cases a
    cases b
    simpa using h

inductive BalanceError where
  | cashOverflow (account : AccountId) (currency : CurrencyCode)
  | quantityWithoutInstrument (event : EventId)
  | numeric (e : NumericError)
  deriving DecidableEq, Repr

structure Balances where
  cash : Tree.Map CashKey PostedMinor
  positions : Tree.Map PositionKey Quantity

namespace Balances

def empty : Balances := ⟨∅, ∅⟩

def cashAt (b : Balances) (key : CashKey) : PostedMinor := b.cash[key]?.getD .zero
def positionAt (b : Balances) (key : PositionKey) : Quantity := b.positions[key]?.getD .zero

/-- The monetary effect of one leg. -/
def applyCash (b : Balances) (leg : Leg) : Except BalanceError Balances :=
  match leg.cashEffect with
  | none => .ok b
  | some money =>
    let key : CashKey := ⟨leg.account, money.currency⟩
    match (b.cashAt key).checkedAdd money.amount with
    | none => .error (.cashOverflow leg.account money.currency)
    | some sum => .ok { b with cash := b.cash.insert key sum }

/-- The quantity a leg carries, of whatever kind the leg is. -/
def applyQuantity (event : EventId) (b : Balances) (leg : Leg) : Except BalanceError Balances :=
  match leg.quantity with
  | none => .ok b
  | some quantity =>
    match leg.instrument with
    | none => .error (.quantityWithoutInstrument event)
    | some instrument => do
      let key : PositionKey := ⟨leg.account, instrument⟩
      let sum ← ((b.positionAt key).checkedAdd quantity).mapError .numeric
      return { b with positions := b.positions.insert key sum }

def applyLeg (event : EventId) (b : Balances) (leg : Leg) : Except BalanceError Balances := do
  let b ← b.applyCash leg
  b.applyQuantity event leg

def apply (b : Balances) (e : Event) : Except BalanceError Balances := e.legs.foldlM (applyLeg e.id) b

end Balances
end Iaam
