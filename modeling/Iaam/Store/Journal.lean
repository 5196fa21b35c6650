import Iaam.Event.Envelope
import Mathlib.Data.List.Sort

/-! The journal as the store keeps it (`journal/mod.rs`, `journal/write.rs`, the indexes of `0001_schema.sql`): what is
recognised as recorded already, and the place an event is given within its day. -/

namespace Iaam
namespace JournalStore

/-- What a source's own identifier of an operation is unique within. -/
inductive IdentityScope where
  | source | account
  deriving DecidableEq, Repr

/-- What happened to a submission. A retry is not an error. -/
inductive Appended where
  | inserted (id : EventId)
  | duplicate (existing : EventId)
  deriving DecidableEq, Repr

namespace Appended

/-- The event that an answer names. -/
def event : Appended → EventId
  | inserted id | duplicate id => id

end Appended

/-- Why an event was not recorded: a unique index, or another refusal of the write, with its text. -/
inductive JournalError where
  | constraint
  | refused (reason : String)
  deriving DecidableEq, Repr

/-! ### What is recorded already -/

def sameOperation (scope : IdentityScope) (operation : String) (e recorded : Event) : Bool :=
  recorded.owner = e.owner && recorded.provenance.source = e.provenance.source &&
    (scope = .source || recorded.account = e.account) && recorded.provenance.sourceOperationId = some operation

def heldByOperation (scope : IdentityScope) (journal : List Event) (e : Event) : Option EventId :=
  e.provenance.sourceOperationId.bind fun operation => (journal.find? (sameOperation scope operation e)).map Event.id

def heldByKey (journal : List Event) (e : Event) : Option EventId :=
  e.idempotencyKey.bind fun key =>
    (journal.find? fun recorded => recorded.owner = e.owner && recorded.idempotencyKey = some key).map Event.id

def heldById (journal : List Event) (e : Event) : Option EventId :=
  (journal.find? fun recorded => recorded.id = e.id).map Event.id

/-- From the strongest identity to the weakest. An event with neither is recognised by its identifier alone. -/
def findDuplicate (scope : IdentityScope) (journal : List Event) (e : Event) : Option EventId :=
  (heldByOperation scope journal e).or ((heldByKey journal e).or (heldById journal e))

/-! ### The write -/

/-- The last sequence number of an owner's day. -/
def usedSequence (journal : List Event) (owner : OwnerId) (day : Date) : Option Nat :=
  ((journal.filter fun recorded => recorded.owner = owner && recorded.order.date = day).map
    fun recorded => recorded.order.sequence).max?

/-- `u32::MAX`. -/
def lastSequence : Nat := 4294967295

/-- The event at the next place of its day. The addition saturates. -/
def stamp (journal : List Event) (e : Event) : Event :=
  { e with order := { e.order with
    sequence := ((usedSequence journal e.owner e.order.date).map fun used => min (used + 1) lastSequence).getD 1 } }

/-- A row that a unique index of the table sees beside another one. -/
def clashes (e recorded : Event) : Bool :=
  recorded.id = e.id ||
    (recorded.owner = e.owner && (e.idempotencyKey.isSome && recorded.idempotencyKey = e.idempotencyKey ||
      (e.provenance.sourceOperationId.isSome && recorded.provenance.sourceOperationId = e.provenance.sourceOperationId &&
        recorded.provenance.source = e.provenance.source && recorded.account = e.account) ||
      recorded.order.date = e.order.date && recorded.order.sequence = e.order.sequence))

/-- `refuses` is what the write checks beside the unique indexes: accounts and custody of the owner, the row formats, and
    that the written rows read back as the event. -/
def insertEvent (refuses : Event → Option String) (journal : List Event) (e : Event) : Except JournalError (List Event) :=
  match refuses e with
  | some reason => .error (.refused reason)
  | none => if journal.any (clashes e) then .error .constraint else .ok (journal ++ [e])

/-- One transaction: what fails leaves the journal as it was. -/
def appendEventInOrder (refuses : Event → Option String) (scope : IdentityScope) (journal : List Event) (e : Event) :
    Except JournalError (Appended × List Event) :=
  match findDuplicate scope journal e with
  | some existing => .ok (.duplicate existing, journal)
  | none => do
    let journal ← insertEvent refuses journal (stamp journal e)
    return (.inserted e.id, journal)

/-- The events of an owner up to a day, in the order of replay. -/
def loadEventsThrough (journal : List Event) (owner : OwnerId) (through : Date) : List Event :=
  (journal.filter fun recorded => recorded.owner = owner && recorded.order.date ≤ through).insertionSort fun l r =>
    compareForReplay l r ≠ .gt

end JournalStore
end Iaam
