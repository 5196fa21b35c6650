import Iaam.Ingest.Operation
import Iaam.Store.Journal

/-! By what a submitted row is recognised as seen (`dedup.rs` of the ingestion). -/

namespace Iaam
open JournalStore

/-- The level of the hierarchy at which a decision was made. -/
inductive DedupLevel where
  | sourceOperationId | idempotencyKey | normalizedFingerprint | documentRow | probabilistic
  deriving DecidableEq, Repr

def DedupLevel.number : DedupLevel → Nat
  | sourceOperationId => 1
  | idempotencyKey => 2
  | normalizedFingerprint => 3
  | documentRow => 4
  | probabilistic => 5

inductive DedupKey where
  | sourceOperationId (id : String)
  | idempotencyKey (key : String)
  | normalizedFingerprint (document fingerprint : String)
  | documentRow (document : String) (sheet : Option String) (row : Nat)
  deriving DecidableEq, Repr

namespace DedupKey

def level : DedupKey → DedupLevel
  | sourceOperationId _ => .sourceOperationId
  | idempotencyKey _ => .idempotencyKey
  | normalizedFingerprint .. => .normalizedFingerprint
  | documentRow .. => .documentRow

/-- The stronger of two keys has the lower number, which is not the one of its level: a row of a document is told apart by its
    place, not by its contents. -/
def precedence : DedupKey → Nat
  | sourceOperationId _ => 1
  | idempotencyKey _ => 2
  | documentRow .. => 3
  | normalizedFingerprint .. => 4

end DedupKey

/-- Where a row came from. A channel without a file has no document. -/
structure DocumentContext where
  account : AccountId
  document : Option String
  sheet : Option String
  row : Option Nat
  identityScope : IdentityScope
  deriving DecidableEq, Repr

/-- A recorded fact, as rows are compared with it. -/
structure KnownRecord where
  event : EventId
  account : AccountId
  sourceOperationId : Option String
  idempotencyKey : Option String
  fingerprint : String
  document : Option String
  sheet : Option String
  row : Option Nat
  deriving DecidableEq, Repr

inductive DedupDecision where
  | duplicate (key : DedupKey) (existing : EventId)
  | fresh
  | possibleDuplicate («of» : EventId) (level : DedupLevel)
  deriving DecidableEq, Repr

def DedupDecision.recordsTheRow : DedupDecision → Bool
  | fresh | possibleDuplicate .. => true
  | duplicate .. => false

namespace Dedup

/-- The keys a row has, and of these the strongest. Nothing identifies a row without any. -/
def chooseKey (fingerprint : SubmittedOperation → String) (operation : SubmittedOperation) (context : DocumentContext) :
    Option DedupKey :=
  let ofDocument := context.document.toList.map fun document =>
    match context.row with
    | some row => DedupKey.documentRow document context.sheet row
    | none => DedupKey.normalizedFingerprint document (fingerprint operation)
  let available := ofDocument ++ (operation.sourceOperationId.toList.map .sourceOperationId ++
    operation.idempotencyKey.toList.map .idempotencyKey)
  (available.insertionSort fun l r => l.precedence ≤ r.precedence).head?

/-- Two rows without a document have not been proved to come from one. -/
def sameDocument (record : KnownRecord) (context : DocumentContext) : Bool :=
  match record.document, context.document with
  | some known, some incoming => known = incoming
  | _, _ => false

def matchesKey (record : KnownRecord) (key : DedupKey) (context : DocumentContext) : Bool :=
  match key with
  | .sourceOperationId id => record.sourceOperationId = some id &&
      match context.identityScope with
      | .source => true
      | .account => record.account = context.account
  | .idempotencyKey value => record.idempotencyKey = some value
  | .normalizedFingerprint document fingerprint => record.document = some document && record.fingerprint = fingerprint
  | .documentRow document sheet row => record.document = some document && record.sheet = sheet && record.row = some row

/-- A match of the key is a duplicate. A match of the fingerprint elsewhere is a hint, and removes nothing. -/
def assess (key : Option DedupKey) (fingerprint : String) (context : DocumentContext) (known : List KnownRecord) :
    DedupDecision :=
  match key.bind fun key => (known.find? fun record => matchesKey record key context).map fun record => (key, record) with
  | some (key, existing) => .duplicate key existing.event
  | none =>
    match known.find? fun record => record.fingerprint = fingerprint && !sameDocument record context with
    | some record => .possibleDuplicate record.event .probabilistic
    | none => .fresh

end Dedup
end Iaam
