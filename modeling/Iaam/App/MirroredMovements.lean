import Iaam.App.SessionReading

/-! The movements of a session as the action queue reads them (`mirrored_movements_of` of `scenarios/import_session.rs`): from
the observations and the stored questions alone, without the directory and the rules of the owner. -/

namespace Iaam
namespace SessionReading

/-- One leg of a movement, as the source printed the row. -/
structure MovementLeg where
  row : Nat
  account : AccountId
  date : Date
  amountMinor : PostedMinor
  currency : CurrencyCode
  deriving DecidableEq, Repr

/-- One movement that a document printed on both of its accounts. -/
structure MirroredMovement where
  id : Nat
  departure : MovementLeg
  arrival : MovementLeg
  deriving DecidableEq, Repr

/-- Why a row has no other half in this document. -/
inductive NoCounterpart where
  | oneAccount | severalAccounts
  deriving DecidableEq, Repr

/-- What a row is to a movement that its document printed twice. -/
inductive OneMovement where
  | waiting (movement : MirroredMovement)
  | recorded (records : Nat)
  | noCounterpart (reason : NoCounterpart)
  deriving DecidableEq, Repr

section
variable (env : Environment) (observations : List ImportObservationView) (questions : List ImportQuestionView)

def noteObserved (rows : Tree.Map Nat ObservedRow) (observation : ImportObservationView) : Tree.Map Nat ObservedRow :=
  match env.parseIntake observation.payload with
  | .ok (.observed row _) => rows.insert observation.row row
  | .ok (.concluded _) | .error _ => rows

/-- The observed rows by their number. What a caller concluded is no observation. -/
def observedRows : Tree.Map Nat ObservedRow := observations.foldl (noteObserved env) ∅

/-- The question of a row, open or answered. -/
def askedOf : Tree.Map Nat ImportQuestionView :=
  questions.foldl (fun asked question => asked.insert question.row question) ∅

/-- The direction and the account of an answer that names one of the owner's accounts. -/
def ownAccountOf : Answer → Option (Classification.Movement × AccountId)
  | .sentToOwnAccount target => some (.out, target)
  | .receivedFromOwnAccount source => some (.in, source)
  | .paid | .received | .fee _ | .income _ | .refund | .betweenOwnAccounts => none

/-- A row that the owner answered with one of his accounts. -/
def answeredSide (row : Nat) (observed : ObservedRow) (question : ImportQuestionView) : Option MirrorSide := do
  let stored ← question.answer
  let answer ← (env.parseAnswer stored).toOption
  let (direction, farSide) ← ownAccountOf answer
  let amountMinor ← magnitude observed.amountMinor
  let date ← observed.dates.effectiveDate
  return ⟨row, observed.account, direction, amountMinor, observed.currency, date, some farSide⟩

/-- A row without a question was settled by something that is not read here, and stands as its source printed it. -/
def questionedSide (asked : Tree.Map Nat ImportQuestionView) (entry : Nat × ObservedRow) : Option MirrorSide :=
  match asked[entry.1]? with
  | some question => if question.isOpen then unansweredSide entry.1 entry.2 else answeredSide env entry.1 entry.2 question
  | none => unansweredSide entry.1 entry.2

def questionedSides : List MirrorSide :=
  (observedRows env observations).toList.filterMap (questionedSide env (askedOf questions))

/-- The observed rows whose question is open. -/
def askedRows : List Nat :=
  ((observedRows env observations).toList.map Prod.fst).filter fun row =>
    (askedOf questions)[row]?.any ImportQuestionView.isOpen

def movementLeg (row : Nat) (observed : ObservedRow) : Option MovementLeg := do
  let date ← observed.dates.effectiveDate
  return ⟨row, observed.account, date, observed.amountMinor, observed.currency⟩

/-- A pair with one half answered is recorded by that half, when the queue has asked about it. -/
def publishPair (session : ImportSessionId) (movements : Tree.Map Nat OneMovement) (mirror : Mirror) :
    Tree.Map Nat OneMovement :=
  let rows := observedRows env observations
  let asked := askedOf questions
  let «open» := askedRows env observations questions
  if mirror.outgoing ∈ «open» then
    if mirror.incoming ∈ «open» then
      match rows[mirror.outgoing]?.bind (movementLeg mirror.outgoing), rows[mirror.incoming]?.bind (movementLeg mirror.incoming) with
      | some departure, some arrival =>
        let movement : MirroredMovement := ⟨env.pairIdentity session mirror.outgoing mirror.incoming, departure, arrival⟩
        (movements.insert mirror.outgoing (.waiting movement)).insert mirror.incoming (.waiting movement)
      | _, _ => movements
    else if mirror.incoming ∈ asked then movements.insert mirror.outgoing (.recorded mirror.incoming)
    else movements
  else if mirror.incoming ∈ «open» then
    if mirror.outgoing ∈ asked then movements.insert mirror.incoming (.recorded mirror.outgoing) else movements
  else movements

/-- Every row of the session is on one account. A row that this build cannot read is on none. -/
def coversOneAccount : Bool :=
  match observations.mapM fun observation => env.parseIntake observation.payload with
  | .error _ => false
  | .ok intakes => (intakes.map Intake.account).dedup.length = 1

/-- The source leaves the row the near half of a movement. -/
def legShaped (observed : ObservedRow) : Bool :=
  observed.farSide.isOwnAccount || observed.counterpartyName.isNone || observed.direction = .inner

/-- A row whose other half is not here. `namesAccount` tells whether a question admits an answer with an account. -/
def publishUnpaired (namesAccount : ImportQuestionView → Bool) (movements : Tree.Map Nat OneMovement)
    (unpaired : UnpairedSide) : Tree.Map Nat OneMovement :=
  if unpaired.reason = .noCounterpart ∧ unpaired.row ∈ askedRows env observations questions ∧
      (questions.find? fun question => question.row = unpaired.row).any namesAccount ∧
        (observedRows env observations)[unpaired.row]?.any legShaped then
    movements.insert unpaired.row
      (.noCounterpart (if coversOneAccount env observations then .oneAccount else .severalAccounts))
  else movements

/-- What the questions of a session are to the movements that its document printed twice. -/
def mirroredMovementsOf (namesAccount : ImportQuestionView → Bool) (session : ImportSessionId) : Tree.Map Nat OneMovement :=
  let reading := Mirror.mirrored (questionedSides env observations questions)
  reading.unpaired.foldl (publishUnpaired env observations questions namesAccount)
    (reading.pairs.foldl (publishPair env observations questions session) ∅)

end

end SessionReading
end Iaam
