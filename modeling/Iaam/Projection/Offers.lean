import Iaam.Event.Envelope
import Iaam.Lib.Tree

/-! The book of the offers (`projection/offers.rs`): what was submitted, and what of it was cancelled or settled.
A request is a chain of facts, and what it claims is seen only in the chain. -/

namespace Iaam
open Outcome

inductive OfferError where
  | overSettled (submission : OfferSubmissionId) (submitted claimed : Quantity)
  | unknownSubmission (submission : OfferSubmissionId)
  | duplicateSubmission (submission : OfferSubmissionId)
  | nonPositiveQuantity (submission : OfferSubmissionId)
  | numeric (e : NumericError)
  deriving DecidableEq, Repr

/-- Cancelled and settled are different outcomes, so both are kept rather than one remainder. -/
structure SubmissionState where
  window : OfferWindowId
  instrument : InstrumentId
  submitted : Quantity
  cancelled : Quantity
  settled : Quantity
  deriving DecidableEq, Repr

namespace SubmissionState

/-- The submitted quantity less the claimed one. -/
def left (state : SubmissionState) : Except NumericError Quantity := do
  let claimed ← state.cancelled.checkedAdd state.settled
  state.submitted.checkedSub claimed

/-- What `outstanding` asserts in a debug build. -/
def invariantHolds (state : SubmissionState) : Bool :=
  match state.left with
  | .ok left => !left.isNegative
  | .error _ => false

/-- How much of the submission remains unresolved. -/
def outstanding (state : SubmissionState) : Quantity :=
  match state.left with
  | .ok left => left
  | .error _ => .zero

end SubmissionState

structure OfferBook where
  submissions : Tree.Map OfferSubmissionId SubmissionState

namespace OfferBook

def empty : OfferBook := ⟨∅⟩

abbrev Step (α : Type) := Mut OfferBook OfferError α

def refuse {α : Type} (e : OfferError) : Step α := Mut.lift (.error (.error e))

def put (submission : OfferSubmissionId) (state : SubmissionState) (book : OfferBook) : OfferBook :=
  ⟨book.submissions.insert submission state⟩

/-- The state of a submission that must be there. -/
def stateMut (submission : OfferSubmissionId) : Step SubmissionState := do
  let book ← Mut.get
  Mut.lift (okOr (.unknownSubmission submission) book.submissions[submission]?)

/-- Cancelled plus settled does not exceed submitted. -/
def checkClaim (submission : OfferSubmissionId) (state : SubmissionState) (cancelled settled : Quantity) :
    Except OfferError Unit := do
  let claimed ← (cancelled.checkedAdd settled).mapError .numeric
  if state.submitted < claimed then .error (.overSettled submission state.submitted claimed) else .ok ()

def apply (action : OfferExerciseAction) : Step Unit :=
  let submission := action.submission
  if !action.quantity.isPositive then refuse (.nonPositiveQuantity submission)
  else
    match action with
    | .submitted _ window instrument quantity => do
      let book ← Mut.get
      -- a second submission under the identifier would lose the first one
      if book.submissions[submission]?.isSome then refuse (.duplicateSubmission submission)
      else Mut.modify (put submission ⟨window, instrument, quantity, .zero, .zero⟩)
    | .cancelled _ quantity => do
      let state ← stateMut submission
      let cancelled ← Mut.lift (convert .numeric (state.cancelled.checkedAdd quantity))
      Mut.lift (convert id (checkClaim submission state cancelled state.settled))
      Mut.modify (put submission { state with cancelled })
    | .settled terms => do
      let state ← stateMut submission
      let settled ← Mut.lift (convert .numeric (state.settled.checkedAdd terms.quantity))
      Mut.lift (convert id (checkClaim submission state state.cancelled settled))
      Mut.modify (put submission { state with settled })

/-- The book after a sequence of calls, whatever their outcomes. -/
def afterCalls (actions : List OfferExerciseAction) (book : OfferBook) : OfferBook :=
  actions.foldl (fun book action => (apply action book).2) book

/-- A submission that was never made has nothing outstanding. -/
def outstanding (book : OfferBook) (submission : OfferSubmissionId) : Quantity :=
  match book.submissions[submission]? with
  | some state => state.outstanding
  | none => .zero

/-- The fact of an event, when the event has one that took effect by the date. -/
def takeEvent (asOf : Date) (book : OfferBook) (event : Event) : Result OfferError OfferBook :=
  if event.dates.effectiveDate.any (· ≤ asOf) then
    match event.kind with
    | .offerExercise action => Mut.onCopy (apply action) book
    | _ => .ok book
  else .ok book

/-- The book of a report (`offer_book_through` in `scenarios/reports.rs`): the first refused fact ends it. -/
def throughDate (events : List Event) (asOf : Date) : Result OfferError OfferBook :=
  events.foldlM (takeEvent asOf) .empty

end OfferBook

end Iaam
