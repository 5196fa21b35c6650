import Iaam.App.Correction

/-! Pairing of transfers (`scenarios/transfer_pairing.rs`): one movement between two accounts that each side
printed as a row of its own. Candidates are proposed over the effective events, and confirming one appends two
corrections. -/

namespace Iaam
open Outcome

/-- Where a leg is: a recorded fact, or a row of an import session. -/
inductive LegOrigin where
  | recorded (event : EventId)
  | observed (session : ImportSessionId) (row : Nat)
  deriving DecidableEq, Repr

/-- The order of the variants, then of their fields. -/
def LegOrigin.rank : LegOrigin → Nat ×ₗ Nat ×ₗ Nat
  | recorded event => toLex (0, toLex (event.uuid, 0))
  | observed session row => toLex (1, toLex (session.uuid, row))

instance : LinearOrder LegOrigin :=
  LinearOrder.lift' LegOrigin.rank fun a b h => by
    rcases a with ⟨⟨a⟩⟩ | ⟨⟨a⟩, r⟩ <;> rcases b with ⟨⟨b⟩⟩ | ⟨⟨b⟩, r'⟩ <;> simp_all [LegOrigin.rank]

/-- One side of a cash movement, which may be half of a transfer. The amount is a magnitude. -/
structure CashLeg where
  origin : LegOrigin
  account : AccountId
  direction : Classification.Movement
  amountMinor : PostedMinor
  currency : CurrencyCode
  date : Date
  reference : Option String
  «import» : Option ImportId
  deriving DecidableEq

/-- What two legs agree on. -/
structure PairingEvidence where
  amountMinor : PostedMinor
  currency : CurrencyCode
  outgoingDate : Date
  incomingDate : Date
  daysApart : Int
  outgoingReference : Option String
  incomingReference : Option String
  soleCandidate : Bool
  deriving DecidableEq

structure PairingCandidate where
  outgoing : CashLeg
  incoming : CashLeg
  evidence : PairingEvidence
  deriving DecidableEq

structure Proposals where
  candidates : List PairingCandidate
  unmatched : List CashLeg
  deriving DecidableEq

namespace TransferPairing

def matchWindowDays : Int := 3

def daysApart (left right : Date) : Int := |left.day - right.day|

def pairs (outgoing incoming : CashLeg) : Bool :=
  outgoing.account ≠ incoming.account && outgoing.currency = incoming.currency &&
    outgoing.amountMinor = incoming.amountMinor && daysApart outgoing.date incoming.date ≤ matchWindowDays

/-- Every outgoing leg with every incoming leg it pairs with. -/
def pairings (legs : List CashLeg) : List (CashLeg × CashLeg) :=
  (legs.filter fun leg => leg.direction = .out).flatMap fun outgoing =>
    ((legs.filter fun leg => leg.direction = .in).filter (pairs outgoing)).map fun incoming => (outgoing, incoming)

/-- The origins seen so far, and those seen more than once. -/
def noteOrigin (sets : Tree.Set LegOrigin × Tree.Set LegOrigin) (origin : LegOrigin) :
    Tree.Set LegOrigin × Tree.Set LegOrigin :=
  if origin ∈ sets.1 then (sets.1, sets.2.insert origin) else (sets.1.insert origin, sets.2)

def seenTwice (origins : List LegOrigin) : Tree.Set LegOrigin := (origins.foldl noteOrigin (∅, ∅)).2

def candidateOf (twiceOut twiceIn : Tree.Set LegOrigin) (pairing : CashLeg × CashLeg) : PairingCandidate where
  outgoing := pairing.1
  incoming := pairing.2
  evidence := {
    amountMinor := pairing.1.amountMinor
    currency := pairing.1.currency
    outgoingDate := pairing.1.date
    incomingDate := pairing.2.date
    daysApart := daysApart pairing.1.date pairing.2.date
    outgoingReference := pairing.1.reference
    incomingReference := pairing.2.reference
    soleCandidate := pairing.1.origin ∉ twiceOut && pairing.2.origin ∉ twiceIn }

/-- Pairs what can be paired, and tells what could not. -/
def propose (legs : List CashLeg) : Proposals :=
  let found := pairings legs
  let twiceOut := seenTwice (found.map fun pairing => pairing.1.origin)
  let twiceIn := seenTwice (found.map fun pairing => pairing.2.origin)
  let paired : Tree.Set LegOrigin :=
    Std.ExtTreeSet.ofList (found.flatMap fun pairing => [pairing.1.origin, pairing.2.origin]) compare
  { candidates := found.map (candidateOf twiceOut twiceIn)
    unmatched := legs.filter fun leg => leg.origin ∉ paired }

/-- The direction and the amount of the three kinds that may be half of a transfer. -/
def legMoney : EventKind → Option (Classification.Movement × Money)
  | .cashOut amount => some (.out, amount)
  | .cashIn amount => some (.in, amount)
  | .ownAccountMovement amount =>
    if 0 < amount.amount.raw then some (.in, amount)
    else if amount.amount.raw < 0 then some (.out, amount)
    else none
  | _ => none

/-- The leg one recorded event offers, if it offers any. -/
def legOfEvent (e : Event) : Option CashLeg := do
  let (direction, amount) ← legMoney e.kind
  let magnitude ← (PostedMinor.ofInt |amount.amount.raw|).filter fun it => 0 < it.raw
  let date ← e.dates.cashPosted
  return {
    origin := .recorded e.id
    account := e.account
    direction
    amountMinor := magnitude
    currency := amount.currency
    date
    reference := e.provenance.description.or e.provenance.sourceOperationId
    «import» := e.provenance.import }

/-- The candidates over a journal. -/
def proposeJournalPairings (events : List Event) : Except CorrectionError Proposals := do
  let effective ← resolve events
  return propose (effective.filterMap legOfEvent)

def pairingKey (outgoing incoming : EventId) : String := "pairing/" ++ outgoing.text ++ "/" ++ incoming.text

/-- The transfer a confirmed pair becomes, submitted from the sending side. -/
def transferFor (candidate : PairingCandidate) (outgoing incoming : EventId) : SubmittedOperation where
  account := candidate.outgoing.account
  kind := .transfer candidate.incoming.account candidate.evidence.amountMinor candidate.evidence.currency
  dates := ⟨none, none, some candidate.evidence.outgoingDate, none⟩
  sourceTime := none
  idempotencyKey := some (pairingKey outgoing incoming)
  sourceOperationId := none
  sourcePositionId := none
  sourceCategory := none
  ownerCategory := none
  sourceCode := none
  sourceKind := none
  description := none
  counterparty := none

end TransferPairing
end Iaam
