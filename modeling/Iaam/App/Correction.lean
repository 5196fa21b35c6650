import Iaam.Ingest.Observation

/-! Corrections on the owner's word (`scenarios/correction.rs`, `subject` of `scenarios/classification.rs`): a
request becomes the facts that are appended, and they are appended only if the journal resolves with them. -/

namespace Iaam
open Outcome

/-- The credential a request came under. -/
structure Principal where
  tokenId : Nat
  owner : OwnerId
  deriving DecidableEq, Repr

def Principal.id (principal : Principal) : PrincipalId := ⟨principal.tokenId⟩

inductive AppError where
  | notFound (what id : String)
  | invalid (field expected actual : String)
  | correction (e : CorrectionError)
  | conflict (what : String)
  deriving DecidableEq, Repr

/-! ### A recorded fact as rules are tested against it -/

/-- The counterparty that the provenance retained. -/
def namedCounterparty (e : Event) : Counterparty :=
  match e.provenance.counterparty with
  | some name => .named name
  | none => .unknown

/-- The parts of the subject that the kind decides; nothing for a fact no rule classifies. -/
def subjectParts (e : Event) : Option (Counterparty × Option Classification.Movement × FarSide) :=
  match e.kind with
  | .cashIn _ | .income .. | .refund _ => some (namedCounterparty e, some .in, .unstated)
  | .cashOut _ | .fee .. => some (namedCounterparty e, some .out, .unstated)
  | .cashTransfer _ source target _ =>
    if source = e.account then some (.named target.text, some .out, .unstated)
    else some (.named source.text, some .in, .unstated)
  | .ownAccountMovement amount => some (.unknown, some (if amount.amount.raw < 0 then .out else .in), .ownAccount)
  | .unresolvedOwnAccountMovement _ => some (.unknown, none, .ownAccount)
  | .trade .. | .openingPosition .. | .openingCash .. | .statedSecuritiesValue .. | .valuation ..
  | .controlAssertion .. | .importCoverageGap .. | .tax .. | .corporateAction .. | .offerExercise .. => none

def subject (e : Event) : Option ClassificationSubject :=
  (subjectParts e).map fun (counterparty, movement, farSide) =>
    { account := e.account
      counterparty
      description := e.provenance.description
      sourceKind := e.provenance.sourceKind
      sourceCategory := e.provenance.sourceCategory
      ownerCategory := e.provenance.ownerCategory
      sourceCode := e.provenance.sourceCode
      movement
      farSide }

/-! ### The facts of a correction -/

/-- The event as the store writes it, with the sequence it assigns within the day. -/
def Event.stamped (e : Event) (sequence : Nat) : Event := { e with order := { e.order with sequence } }

def correctionParserVersion : String := "correction/1"
def correctionChannel : String := "correction"

/-- What the corrections take from hashes: the source that an owner, an account and a channel declare, and the
    hash of a text. -/
structure Hashes where
  declared : OwnerId → AccountId → String → SourceId
  hashOf : String → String

def reversalKey (target : EventId) : String := "correction/reversal/" ++ target.text
def reclassificationKey (target : EventId) : String := "correction/reclassification/" ++ target.text

/-- The reversal of an event: kind and legs are copied, so that it passes the gate. -/
def reversalForWith (hashes : Hashes) (id : EventId) (original : Event) (declaredBy : Option PrincipalId) : Event where
  id
  owner := original.owner
  account := original.account
  kind := original.kind
  dates := original.dates
  order := ⟨original.order.date, original.order.sourceTime, 0⟩
  legs := original.legs
  provenance := {
    source := hashes.declared original.owner original.account correctionChannel
    rawHash := hashes.hashOf (reversalKey original.id)
    parserVersion := correctionParserVersion
    declaredBy }
  relation := .reversal original.id
  confidence := original.confidence
  idempotencyKey := some (reversalKey original.id)

def reversalFor (hashes : Hashes) (id : EventId) (original : Event) (declaredBy : PrincipalId) : Event :=
  reversalForWith hashes id original (some declaredBy)

/-- A rejection of an operation, under the path of the request that carried it. -/
def rejectedUnder (path : String) (r : Rejection) : AppError := .invalid (path ++ "." ++ r.field) r.expected r.actual

def correctionPath (index : Nat) : String := "corrections[" ++ toString index ++ "]"

/-- The normalised operation, as a replacement of the target. -/
def replacing (hashes : Hashes) (fresh : Operation.Fresh) (owner : OwnerId) (target : EventId)
    (operation : SubmittedOperation) (declaredBy : Option PrincipalId) : Operation.Built Event := do
  let context := ⟨owner, hashes.declared owner operation.account correctionChannel, correctionParserVersion⟩
  let event ← Operation.normalize fresh operation context
  return { event with
    provenance := { event.provenance with declaredBy := declaredBy }
    relation := .replacement target }

def replacementFor (hashes : Hashes) (fresh : Operation.Fresh) (principal : Principal) (target : EventId)
    (operation : SubmittedOperation) (index : Nat) : Result AppError Event :=
  reraise (rejectedUnder (correctionPath index ++ ".operation"))
    (replacing hashes fresh principal.owner target operation (some principal.id))

/-! ### Reclassification -/

/-- The cash of a recorded row: its first leg that moves money, or the amount that has no direction. -/
def observedCash (original : Event) : Option Money :=
  (original.legs.findSome? Leg.cashEffect).or
    (match original.kind with
    | .unresolvedOwnAccountMovement amount => some amount
    | _ => none)

/-- The row an event was recorded from. `debug` is the `Debug` text of a kind. -/
def observedFor (debug : EventKind → String) (original : Event) (index : Nat) : Except AppError ObservedRow :=
  match subject original with
  | none =>
    .error (.invalid (correctionPath index ++ ".target") "a cash statement fact that can be reclassified"
      (debug original.kind))
  | some subject =>
    match observedCash original with
    | none => .error (.invalid (correctionPath index ++ ".target") "a cash statement fact with a cash leg" "no cash leg")
    | some cash =>
      .ok {
        account := original.account
        direction :=
          match subject.movement with
          | some .in => .in
          | some .out => .out
          | none => .unknown
        amountMinor := cash.amount
        currency := cash.currency
        counterparty :=
          match subject.counterparty with
          | .named name => .named name
          | .ownAccount account => .named account.text
          | .unknown => .unknown
        farSide := subject.farSide
        sourceKind := original.provenance.sourceKind
        sourceCategory := original.provenance.sourceCategory
        ownerCategory := original.provenance.ownerCategory
        sourceCode := original.provenance.sourceCode
        description := original.provenance.description
        dates := ⟨original.dates.trade, original.dates.settled, original.dates.cashPosted, original.dates.paid⟩
        sourceTime := original.order.sourceTime
        identity := ⟨none, original.provenance.sourceOperationId, none⟩ }

/-- The replacement that files an event under another classification. -/
def reclassificationFor (hashes : Hashes) (debug : EventKind → String) (fresh : Operation.Fresh) (owner : OwnerId)
    (original : Event) (classification : Classification) (declaredBy : Option PrincipalId) (index : Nat) :
    Result AppError Event := do
  let rejected := rejectedUnder (correctionPath index ++ ".classified_as")
  let observed ← convert id (observedFor debug original index)
  let operation ← convert rejected (observed.resolve classification observed.movement)
  let operation := { operation with idempotencyKey := some (reclassificationKey original.id) }
  reraise rejected (replacing hashes fresh owner original.id operation declaredBy)

end Iaam
