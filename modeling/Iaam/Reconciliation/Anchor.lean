import Iaam.Projection.Balances

/-! Whether anything in the journal asserts the state a fold began from (`reconciliation/anchor.rs`). -/

namespace Iaam

inductive OpeningAnchor where
  | asserted | unasserted
  deriving DecidableEq, Repr

/-- Whether the opening state is part of the number that is published. -/
inductive OpeningIncorporation where
  | incorporated | unincorporated
  deriving DecidableEq, Repr

/-- The anchors of every account, currency and holding of a journal: first movements, first reconstructed
    openings, and the starts of the intervals that opening assertions speak about. -/
structure OpeningAnchors where
  firstCash : Tree.Map CashKey Date
  firstSecurity : Tree.Map PositionKey Date
  reconstructedCash : Tree.Map CashKey Date
  reconstructedPosition : Tree.Map PositionKey Date
  cashOpenings : List (AccountId × CurrencyCode × Date)
  positionOpenings : List (AccountId × InstrumentId × Date)

def earliest {κ : Type} [LinearOrder κ] (into : Tree.Map κ Date) (key : κ) (date : Date) : Tree.Map κ Date :=
  match into[key]? with
  | some known => if date < known then into.insert key date else into
  | none => into.insert key date

/-- Whether anything reaches back to the first movement. -/
def anchored (assertedFrom : List Date) (reconstructedAt : Option Date) (firstMovement : Date) : OpeningAnchor :=
  if assertedFrom.any (· ≤ firstMovement) ∨ reconstructedAt.any (· ≤ firstMovement) then .asserted else .unasserted

def incorporation (reconstructedAt : Option Date) (firstMovement : Date) : OpeningIncorporation :=
  if reconstructedAt.any (· ≤ firstMovement) then .incorporated else .unincorporated

/-- An opening that the owner reconstructed. -/
def EventKind.isReconstructed : EventKind → Bool
  | openingCash .. | openingPosition .. => true
  | _ => false

namespace OpeningAnchors

def empty : OpeningAnchors := ⟨∅, ∅, ∅, ∅, [], []⟩

/-- The movement of one leg, on the account of the leg. -/
def recordMovement (reconstructed : Bool) (date : Date) (index : OpeningAnchors) (leg : Leg) : OpeningAnchors :=
  let index := match leg.cashEffect with
    | some money =>
      let key : CashKey := ⟨leg.account, money.currency⟩
      { index with
        firstCash := earliest index.firstCash key date
        reconstructedCash :=
          if reconstructed then earliest index.reconstructedCash key date else index.reconstructedCash }
    | none => index
  match leg.kind, leg.instrument with
  | .securityQuantity, some instrument =>
    let key : PositionKey := ⟨leg.account, instrument⟩
    { index with
      firstSecurity := earliest index.firstSecurity key date
      reconstructedPosition :=
        if reconstructed then earliest index.reconstructedPosition key date else index.reconstructedPosition }
  | _, _ => index

def recordMovements (index : OpeningAnchors) (event : Event) (date : Date) : OpeningAnchors :=
  event.legs.foldl (recordMovement event.kind.isReconstructed date) index

/-- An opening assertion, on the account of the event. -/
def recordAssertion (index : OpeningAnchors) (event : Event) : OpeningAnchors :=
  match event.kind with
  | .controlAssertion period (.cashBalance currency _ .opening) =>
    { index with cashOpenings := index.cashOpenings ++ [(event.account, currency, period.from)] }
  | .controlAssertion period (.positionQuantity instrument _ .opening) =>
    { index with positionOpenings := index.positionOpenings ++ [(event.account, instrument, period.from)] }
  | _ => index

def record (index : OpeningAnchors) (event : Event) : OpeningAnchors :=
  match event.dates.effectiveDate with
  | some date => (index.recordMovements event date).recordAssertion event
  | none => index

/-- The index of a journal. -/
def of (events : List Event) : OpeningAnchors := events.foldl record empty

def cash (index : OpeningAnchors) (account : AccountId) (currency : CurrencyCode) : OpeningAnchor :=
  match index.firstCash[(⟨account, currency⟩ : CashKey)]? with
  | none => .unasserted
  | some first =>
    anchored
      (index.cashOpenings.filterMap fun (owner, code, start) =>
        if owner = account ∧ code = currency then some start else none)
      index.reconstructedCash[(⟨account, currency⟩ : CashKey)]? first

def position (index : OpeningAnchors) (account : AccountId) (instrument : InstrumentId) : OpeningAnchor :=
  match index.firstSecurity[(⟨account, instrument⟩ : PositionKey)]? with
  | none => .unasserted
  | some first =>
    anchored
      (index.positionOpenings.filterMap fun (owner, held, start) =>
        if owner = account ∧ held = instrument then some start else none)
      index.reconstructedPosition[(⟨account, instrument⟩ : PositionKey)]? first

def cashIncorporation (index : OpeningAnchors) (account : AccountId) (currency : CurrencyCode) : OpeningIncorporation :=
  match index.firstCash[(⟨account, currency⟩ : CashKey)]? with
  | none => .unincorporated
  | some first => incorporation index.reconstructedCash[(⟨account, currency⟩ : CashKey)]? first

def positionIncorporation (index : OpeningAnchors) (account : AccountId) (instrument : InstrumentId) :
    OpeningIncorporation :=
  match index.firstSecurity[(⟨account, instrument⟩ : PositionKey)]? with
  | none => .unincorporated
  | some first => incorporation index.reconstructedPosition[(⟨account, instrument⟩ : PositionKey)]? first

end OpeningAnchors
end Iaam
