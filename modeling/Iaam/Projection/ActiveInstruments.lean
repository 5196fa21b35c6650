import Iaam.Event.Correction

/-! The instruments to synchronise (`projection/active_instruments.rs`): those whose quantity, netted over the kinds of
the effective events, is not zero. -/

namespace Iaam

inductive ActiveInstrumentsError where
  | numeric (e : NumericError)
  | correction (e : CorrectionError)

namespace ActiveInstruments

def negated (quantity : Dec) : Except NumericError Dec := quantity.checkedNeg

/-- What an event adds to the quantities. A conversion moves two of them. -/
def deltas (e : Event) : Except NumericError (List (InstrumentId × Dec)) :=
  match e.kind with
  | .trade terms =>
    match terms.side with
    | .buy => .ok [(terms.instrument, terms.quantity)]
    | .sell => do
      let quantity ← negated terms.quantity
      return [(terms.instrument, quantity)]
  | .openingPosition instrument quantity _ _ => .ok [(instrument, quantity)]
  -- Amortisation pays out money but does not change the number of securities.
  | .corporateAction (.partialRedemption terms _) => .ok [(terms.instrument, Dec.zero)]
  | .corporateAction (.redemption terms) => do
    let quantity ← negated terms.quantity
    return [(terms.instrument, quantity)]
  | .corporateAction (.conversion terms) => do
    let quantity ← negated terms.quantityIn
    return [(terms.predecessor, quantity), (terms.successor, terms.quantityOut)]
  | .offerExercise (.settled terms) => do
    let quantity ← negated terms.quantity
    return [(terms.instrument, quantity)]
  | .offerExercise (.submitted ..) | .offerExercise (.cancelled ..) | .cashIn .. | .refund .. | .cashOut ..
  | .cashTransfer .. | .ownAccountMovement .. | .unresolvedOwnAccountMovement .. | .income .. | .fee .. | .tax ..
  | .openingCash .. | .statedSecuritiesValue .. | .valuation .. | .controlAssertion .. | .importCoverageGap .. => .ok []

abbrev Quantities := Tree.Map InstrumentId Dec

def quantityAt (quantities : Quantities) (instrument : InstrumentId) : Dec := quantities[instrument]?.getD .zero

def addDelta (quantities : Quantities) (delta : InstrumentId × Dec) : Except NumericError Quantities := do
  let sum ← (quantityAt quantities delta.1).checkedAdd delta.2
  return quantities.insert delta.1 sum

def addEvent (quantities : Quantities) (e : Event) : Except NumericError Quantities := do
  let deltas ← deltas e
  deltas.foldlM addDelta quantities

end ActiveInstruments

open ActiveInstruments in
/-- `active_instruments`: an accumulation that overflows is a failure. -/
def activeInstruments (events : List Event) : Except ActiveInstrumentsError (Tree.Set InstrumentId) := do
  let effective ← (resolve events).mapError .correction
  let quantities ← (effective.foldlM addEvent ∅).mapError .numeric
  return Std.ExtTreeSet.ofList
    (quantities.toList.filterMap fun entry => if entry.2.isZero then none else some entry.1) compare

end Iaam
