import Iaam.Lib.Numbered
import Iaam.Lib.Search
import Iaam.Store.Stamp

/-! Snapshots of payout schedules (`schedule.rs`). A snapshot is the whole schedule of an issue as one source gave it at one
moment. The same schedule again is not written again. -/

namespace Iaam
namespace Schedule

/-- A statement that the schema refuses. -/
inductive StoreError where
  | sqlite
  deriving DecidableEq, Repr

structure CouponPeriodRow where
  periodStart : Text
  accrualEnd : Text
  paymentDate : Text
  recordDate : Option Text
  amountStatus : Text
  amountPerUnit : Option Text
  amountCurrency : Option Text
  ratePercent : Option Text
  sourceEntryId : Option Text
  deriving DecidableEq, Repr

structure PrincipalRepaymentRow where
  repaymentDate : Text
  sharePercent : Text
  sourceKind : Text
  sourceEntryId : Option Text
  deriving DecidableEq, Repr

structure OfferWindowRow where
  executionDate : Text
  submissionStart : Option Text
  submissionEnd : Option Text
  pricePercent : Option Text
  agent : Option Text
  sourceKind : Text
  sourceEntryId : Option Text
  deriving DecidableEq, Repr

/-- The rows of one snapshot. -/
structure ScheduleRows where
  couponPeriods : List CouponPeriodRow
  principalRepayments : List PrincipalRepaymentRow
  offerWindows : List OfferWindowRow
  deriving DecidableEq, Repr

structure ScheduleSnapshotRow (Hash : Type) where
  instrumentId : Text
  sourceId : Text
  observedAt : Text
  contentHash : Hash
  deriving DecidableEq

structure SnapshotOutcome where
  snapshotId : Text
  written : Bool
  deriving DecidableEq, Repr

structure StoredSnapshot extends ScheduleRows where
  snapshotId : Text
  observedAt : Text
  deriving DecidableEq, Repr

/-! ### What the schema checks -/

/-- The amount of a coupon is fixed, or to be found by the rate, or not known. -/
def CouponPeriodRow.amountStated (row : CouponPeriodRow) : Bool :=
  if row.amountStatus = "amount_fixed".toList then row.amountPerUnit.isSome && row.amountCurrency.isSome
  else if row.amountStatus = "rate_fixed_amount_undetermined".toList then row.ratePercent.isSome && row.amountPerUnit.isNone
  else row.amountStatus = "undetermined".toList && row.amountPerUnit.isNone && row.ratePercent.isNone

def CouponPeriodRow.passes (row : CouponPeriodRow) : Bool :=
  row.amountStated && row.periodStart ≤ row.accrualEnd && row.accrualEnd ≤ row.paymentDate

/-- Each table has one row of a snapshot for each date. -/
def ScheduleRows.passes (rows : ScheduleRows) : Bool :=
  rows.couponPeriods.all CouponPeriodRow.passes && (rows.couponPeriods.map CouponPeriodRow.periodStart).Nodup &&
    (rows.principalRepayments.map PrincipalRepaymentRow.repaymentDate).Nodup &&
    (rows.offerWindows.map OfferWindowRow.executionDate).Nodup

/-! ### The content of a schedule -/

/-- What the hash is taken of: the rows without the ids that the source gives them. -/
def ScheduleRows.content (rows : ScheduleRows) : ScheduleRows where
  couponPeriods := rows.couponPeriods.map fun row => { row with sourceEntryId := none }
  principalRepayments := rows.principalRepayments.map fun row => { row with sourceEntryId := none }
  offerWindows := rows.offerWindows.map fun row => { row with sourceEntryId := none }

/-- `ORDER BY` of the three queries. -/
def ScheduleRows.sorted (rows : ScheduleRows) : ScheduleRows where
  couponPeriods := Numbered.sortBy CouponPeriodRow.periodStart rows.couponPeriods
  principalRepayments := Numbered.sortBy PrincipalRepaymentRow.repaymentDate rows.principalRepayments
  offerWindows := Numbered.sortBy OfferWindowRow.executionDate rows.offerWindows

/-! ### The tables -/

/-- A row of `schedule_snapshots` with the rows of the other tables that name it. -/
structure Snapshot (Hash : Type) where
  id : Text
  header : ScheduleSnapshotRow Hash
  rows : ScheduleRows
  deriving DecidableEq

structure Tables (Hash : Type) where
  instruments : List Text
  snapshots : List (Snapshot Hash)

namespace Tables
variable {Hash : Type} [DecidableEq Hash]

def ofSeries (t : Tables Hash) (instrumentId sourceId : Text) : List (Snapshot Hash) :=
  t.snapshots.filter fun s => s.header.instrumentId = instrumentId && s.header.sourceId = sourceId

/-- `ORDER BY observed_at DESC, id DESC LIMIT 1`. -/
def newest (snapshots : List (Snapshot Hash)) : Option (Snapshot Hash) :=
  Search.maxByKey (fun s => toLex (s.header.observedAt, s.id)) snapshots

/-- The keys of the snapshot are new, the instrument is known and the rows pass their checks. -/
def accepts (t : Tables Hash) (id : Text) (header : ScheduleSnapshotRow Hash) (rows : ScheduleRows) : Bool :=
  header.instrumentId ∈ t.instruments && id ∉ t.snapshots.map Snapshot.id &&
    header.observedAt ∉ (t.ofSeries header.instrumentId header.sourceId).map (fun s => s.header.observedAt) && rows.passes

def recordScheduleSnapshot (t : Tables Hash) (id : Text) (header : ScheduleSnapshotRow Hash) (rows : ScheduleRows) :
    Except StoreError (SnapshotOutcome × Tables Hash) :=
  let write := if t.accepts id header rows then
      .ok (⟨id, true⟩, { t with snapshots := t.snapshots ++ [⟨id, header, rows⟩] })
    else .error .sqlite
  match newest (t.ofSeries header.instrumentId header.sourceId) with
  | some latest => if latest.header.contentHash = header.contentHash then .ok (⟨latest.id, false⟩, t) else write
  | none => write

def scheduleAtOrBefore (t : Tables Hash) (instrumentId sourceId knowledgeAsOf : Text) : Option StoredSnapshot :=
  (newest ((t.ofSeries instrumentId sourceId).filter fun s => s.header.observedAt ≤ knowledgeAsOf)).map fun s =>
    { s.rows.sorted with snapshotId := s.id, observedAt := s.header.observedAt }

end Tables

end Schedule
end Iaam
