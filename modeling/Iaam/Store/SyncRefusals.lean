import Iaam.Ids
import Mathlib.Data.List.Sort

/-! The rows that broker synchronisations set aside, kept for the owner (`sync_refusals.rs`, `0009_sync_refusals.sql`). What
the rows hold is text for the store. -/

namespace Iaam

/-- A refused row. The days are ISO dates, the last one of them included. -/
structure SyncRefusalRecord where
  id : Nat
  owner : OwnerId
  account : AccountId
  source : String
  rowKey : String
  rangeFrom : String
  rangeTo : String
  dimensions : String
  reason : String
  payload : String
  settled : Bool
  deriving DecidableEq, Repr

/-- Whose refusals, and over which days. -/
structure SyncRefusalFilter where
  owner : OwnerId
  account : AccountId
  source : String
  «from» : String
  «to» : String
  deriving DecidableEq, Repr

namespace SyncRefusals

/-- The rows that the unique index holds to be one. -/
def sameRow (a b : SyncRefusalRecord) : Bool :=
  a.owner = b.owner && a.account = b.account && a.source = b.source && a.rowKey = b.rowKey

/-- What a held row takes from a later refusal: all but its identity. It is asked about again. -/
def refreshed (held record : SyncRefusalRecord) : SyncRefusalRecord :=
  { held with
    rangeFrom := record.rangeFrom
    rangeTo := record.rangeTo
    dimensions := record.dimensions
    reason := record.reason
    payload := record.payload
    settled := false }

def upsertSyncRefusal (record : SyncRefusalRecord) (records : List SyncRefusalRecord) : List SyncRefusalRecord :=
  if records.any (sameRow record) then
    records.map fun held => if sameRow record held then refreshed held record else held
  else records ++ [record]

/-- An open row of the filter's channel whose days all lie in those of the filter. -/
def covered (filter : SyncRefusalFilter) (record : SyncRefusalRecord) : Bool :=
  !record.settled && record.owner = filter.owner && record.account = filter.account && record.source = filter.source &&
    filter.from ≤ record.rangeFrom && record.rangeTo ≤ filter.to

/-- Settles the covered rows, but for those that are named. -/
def settleSyncRefusalsBesides (filter : SyncRefusalFilter) (rowKeys : List String) (records : List SyncRefusalRecord) :
    List SyncRefusalRecord :=
  records.map fun record =>
    if covered filter record && !rowKeys.contains record.rowKey then { record with settled := true } else record

/-- The open rows of a channel whose days meet those asked about, by their keys. -/
def listOpenSyncRefusals (filter : SyncRefusalFilter) (records : List SyncRefusalRecord) : List SyncRefusalRecord :=
  (records.filter fun record => !record.settled && record.owner = filter.owner && record.account = filter.account &&
    record.source = filter.source && record.rangeFrom ≤ filter.to && filter.from ≤ record.rangeTo).insertionSort
      fun l r => l.rowKey ≤ r.rowKey

end SyncRefusals
end Iaam
