import Iaam.Ids
import Iaam.Lib.Numbered
import Iaam.Lib.Outcome
import Iaam.Lib.Search
import Iaam.Store.Stamp

/-! Market observations and the runs that bring them in (`market.rs`). A run holds the lease of one series. Its rows are
published when it ends well.

Dates are written as texts of a fixed width, whose order is that of the dates. A lease is written as the text of its
moment, and what is parsed from the text is the moment. The columns that say when a run started and ended are left out:
no query here reads them. -/

namespace Iaam
namespace Market
open Outcome

inductive StoreError where
  | sqlite
  | invalidValue (field : String)
  | leaseExpired
  | leaseHeld (sourceId dataset seriesKey : Text)
  | runNotFound
  deriving DecidableEq, Repr

/-- What is complete or not: a source, a data set and a series in it. -/
structure SeriesKey where
  sourceId : Text
  dataset : Text
  seriesKey : Text
  deriving DecidableEq, Repr

structure PriceRow where
  instrumentId : Text
  board : Text
  session : Int
  tradeDate : Text
  kind : Text
  observedAt : Text
  price : Text
  currency : Text
  quotationBasis : Text
  basisEvidence : Text
  executability : Text
  deriving DecidableEq, Repr

structure AccruedInterestRow where
  instrumentId : Text
  board : Text
  session : Int
  tradeDate : Text
  observedAt : Text
  perUnit : Text
  currency : Text
  deriving DecidableEq, Repr

structure FxRow where
  fromCode : Text
  toCode : Text
  tradeDate : Text
  observedAt : Text
  nominal : Nat
  value : Text
  unitRate : Text
  deriving DecidableEq, Repr

structure KeyRateRow where
  tradeDate : Text
  observedAt : Text
  rate : Text
  deriving DecidableEq, Repr

structure PriceVenue where
  board : Text
  session : Int
  deriving DecidableEq, Repr

structure MarketWindow where
  «from» : Text
  «to» : Text
  knowledgeAsOf : Text
  deriving DecidableEq, Repr

/-- What a worker holds of its run. -/
structure RunHandle where
  id : Text
  leaseToken : Text
  series : SeriesKey
  deriving DecidableEq, Repr

structure Coverage where
  «from» : Date
  «to» : Date
  deriving DecidableEq, Repr

inductive RunOutcome where
  | succeeded
  | partialWith (reason : Text)
  | failed (reason : Text)
  deriving DecidableEq, Repr

/-! ### The tables -/

inductive RunStatus where
  | running | succeeded | partialRun | failed
  deriving DecidableEq, Repr

structure SyncRun where
  id : Text
  series : SeriesKey
  status : RunStatus
  requestedFrom : Date
  requestedTo : Date
  covered : Option Coverage := none
  pages : Nat := 0
  rows : Nat := 0
  pageErrors : List Text := []
  leaseToken : Option Text
  leaseExpiresAt : Option Moment
  deriving DecidableEq

/-- An observation as it is stored, with the run that brought it. -/
structure Observation (Row : Type) where
  row : Row
  sourceId : Text
  rawHash : Text
  syncRunId : Text
  deriving DecidableEq, Repr

structure SeriesCompleteness where
  series : SeriesKey
  completeThrough : Date
  updatedAt : Text
  lastSuccessfulRun : Text
  deriving DecidableEq

structure Tables where
  instruments : List Text
  runs : List SyncRun := []
  prices : List (Observation PriceRow) := []
  accruedInterest : List (Observation AccruedInterestRow) := []
  fx : List (Observation FxRow) := []
  keyRates : List (Observation KeyRateRow) := []
  completeness : List SeriesCompleteness := []

/-- One of the tables of observations: where it is, and whether a row may be added to those it has. -/
structure ObservationTable (Row : Type) where
  get : Tables → List (Observation Row)
  put : List (Observation Row) → Tables → Tables
  accepts : Tables → List (Observation Row) → Observation Row → Bool

def priceTable : ObservationTable PriceRow where
  get := Tables.prices
  put rows t := { t with prices := rows }
  accepts t rows o :=
    o.row.instrumentId ∈ t.instruments &&
      (o.row.executability = "executable".toList || o.row.executability = "indicative_previous_close".toList) &&
      (o.row.quotationBasis = "money_per_unit".toList || o.row.quotationBasis = "percent_of_remaining_face".toList ||
        o.row.quotationBasis = "unknown".toList) &&
      !rows.any fun old => old.row.instrumentId = o.row.instrumentId && old.row.board = o.row.board &&
        old.row.session = o.row.session && old.row.tradeDate = o.row.tradeDate && old.row.kind = o.row.kind &&
        old.sourceId = o.sourceId && old.row.observedAt = o.row.observedAt

def accruedInterestTable : ObservationTable AccruedInterestRow where
  get := Tables.accruedInterest
  put rows t := { t with accruedInterest := rows }
  accepts _ _ _ := true

def fxTable : ObservationTable FxRow where
  get := Tables.fx
  put rows t := { t with fx := rows }
  accepts _ rows o := 0 < o.row.nominal && !rows.any fun old =>
    old.row.fromCode = o.row.fromCode && old.row.toCode = o.row.toCode && old.row.tradeDate = o.row.tradeDate &&
      old.sourceId = o.sourceId && old.row.observedAt = o.row.observedAt

def keyRateTable : ObservationTable KeyRateRow where
  get := Tables.keyRates
  put rows t := { t with keyRates := rows }
  accepts _ rows o := !rows.any fun old =>
    old.row.tradeDate = o.row.tradeDate && old.sourceId = o.sourceId && old.row.observedAt = o.row.observedAt

/-! ### Runs -/

/-- The lease is over as the store sees it: by its text. -/
def SyncRun.swept (now : Moment) (r : SyncRun) : Bool :=
  r.status = .running && r.leaseExpiresAt.any fun expires => expires.rfc3339 ≤ now.rfc3339

/-- `UPDATE sync_runs SET status = 'failed' … WHERE … lease_expires_at <= now`, for one row. -/
def SyncRun.sweep (now : Moment) (r : SyncRun) : SyncRun :=
  if r.swept now then
    { r with status := .failed, pageErrors := ["lease_expired".toList], leaseToken := none, leaseExpiresAt := none }
  else r

/-- Takes the lease of a series. The clock is read before the transaction, and again in it. -/
def beginRun (t : Tables) (checkedAt now : Moment) (id leaseToken : Text) (series : SeriesKey)
    (requestedFrom requestedTo : Date) (leaseExpiresAt : Moment) : Except StoreError (RunHandle × Tables) :=
  if requestedTo < requestedFrom then .error (.invalidValue "requested_to")
  else if leaseExpiresAt ≤ checkedAt then .error .leaseExpired
  else
    let runs := t.runs.map (SyncRun.sweep now)
    if runs.any fun r => r.series = series && r.status = .running then
      .error (.leaseHeld series.sourceId series.dataset series.seriesKey)
    else if id ∈ runs.map SyncRun.id then .error .sqlite
    else
      let run : SyncRun := {
        id, series, status := .running, requestedFrom, requestedTo
        leaseToken := some leaseToken, leaseExpiresAt := some leaseExpiresAt }
      .ok (⟨id, leaseToken, series⟩, { t with runs := runs ++ [run] })

/-- The run of a handle, while its lease lasts: by the moment that is parsed from the text. -/
def ensureRun (t : Tables) (now : Moment) (run : RunHandle) : Except StoreError (Date × Date) :=
  match t.runs.find? fun r => r.id = run.id && r.leaseToken = some run.leaseToken with
  | none => .error .runNotFound
  | some r =>
    if r.series ≠ run.series then .error .runNotFound
    else if r.status ≠ .running then .error .runNotFound
    else match r.leaseExpiresAt with
      | none => .error .leaseExpired
      | some expires =>
        if expires ≤ now then .error .leaseExpired else .ok (r.requestedFrom, r.requestedTo)

/-- One more page of a run. -/
def SyncRun.count (id : Text) (rows : Nat) (r : SyncRun) : SyncRun :=
  if r.id = id then { r with pages := r.pages + 1, rows := r.rows + rows } else r

/-- Adds the rows one by one. -/
def insertRows {Row : Type} (table : ObservationTable Row) (t : Tables) (rows : List (Observation Row)) :
    Except StoreError (List (Observation Row)) :=
  rows.foldlM (fun stored o => if table.accepts t stored o then .ok (stored ++ [o]) else .error .sqlite) (table.get t)

/-- Writes one page of a run: the body of the four functions below. -/
def recordPage {Row : Type} (table : ObservationTable Row) (t : Tables) (now : Moment) (run : RunHandle) (rawHash : Text)
    (observations : List Row) : Except StoreError (Nat × Tables) := do
  let _ ← ensureRun t now run
  let stored ← insertRows table t (observations.map fun row => ⟨row, run.series.sourceId, rawHash, run.id⟩)
  if 2 ^ 63 ≤ observations.length then .error (.invalidValue "rows")
  else return (observations.length, table.put stored { t with runs := t.runs.map (SyncRun.count run.id observations.length) })

def recordPrices : Tables → Moment → RunHandle → Text → List PriceRow → Except StoreError (Nat × Tables) :=
  recordPage priceTable

def recordAccruedInterest : Tables → Moment → RunHandle → Text → List AccruedInterestRow → Except StoreError (Nat × Tables) :=
  recordPage accruedInterestTable

def recordFx : Tables → Moment → RunHandle → Text → List FxRow → Except StoreError (Nat × Tables) :=
  recordPage fxTable

def recordKeyRate : Tables → Moment → RunHandle → Text → List KeyRateRow → Except StoreError (Nat × Tables) :=
  recordPage keyRateTable

def RunOutcome.status : RunOutcome → RunStatus
  | succeeded => .succeeded
  | partialWith _ => .partialRun
  | failed _ => .failed

def RunOutcome.pageErrors : RunOutcome → List Text
  | succeeded => []
  | partialWith reason | failed reason => [reason]

/-- The run at its end: the lease is given back. -/
def SyncRun.finish (id : Text) (outcome : RunOutcome) (coverage : Coverage) (r : SyncRun) : SyncRun :=
  if r.id = id && r.status = .running then
    { r with
      status := outcome.status
      covered := some coverage
      pageErrors := outcome.pageErrors
      leaseToken := none
      leaseExpiresAt := none }
  else r

/-- `INSERT … ON CONFLICT DO UPDATE`: the boundary of a series only goes forward. -/
def publish (completeness : List SeriesCompleteness) (new : SeriesCompleteness) : List SeriesCompleteness :=
  if completeness.any fun old => old.series = new.series then
    completeness.map fun old => if old.series = new.series then
        { new with completeThrough :=
            if old.completeThrough < new.completeThrough then new.completeThrough else old.completeThrough }
      else old
  else completeness ++ [new]

def finishRun (t : Tables) (now : Moment) (run : RunHandle) (outcome : RunOutcome) (coverage : Option Coverage)
    (updatedAt : Text) : Except StoreError Tables := do
  let (requestedFrom, requestedTo) ← ensureRun t now run
  let coverage := coverage.getD ⟨requestedFrom, requestedTo⟩
  if coverage.«to» < coverage.«from» then .error (.invalidValue "covered_to")
  else
    let completeness := match outcome with
      | .succeeded => publish t.completeness ⟨run.series, coverage.«to», updatedAt, run.id⟩
      | .partialWith _ | .failed _ => t.completeness
    return { t with runs := t.runs.map (SyncRun.finish run.id outcome coverage), completeness := completeness }

/-! ### Readers -/

def completeThrough (t : Tables) (series : SeriesKey) : Option Date :=
  (t.completeness.find? fun c => c.series = series).map SeriesCompleteness.completeThrough

def completeThroughAtOrBefore (t : Tables) (series : SeriesKey) (knowledgeAsOf : Text) : Option Date :=
  (t.completeness.find? fun c => c.series = series && c.updatedAt ≤ knowledgeAsOf).map SeriesCompleteness.completeThrough

/-- `JOIN sync_runs … WHERE r.status = 'succeeded'`, with the other conditions of a query. -/
def published {Row : Type} (t : Tables) (table : List (Observation Row)) (p : Observation Row → SyncRun → Bool) :
    List (Observation Row) :=
  table.filter fun o => t.runs.any fun r => r.id = o.syncRunId && r.status = .succeeded && p o r

def pricesAtOrBefore (t : Tables) (instrumentId : Text) (venue : PriceVenue) (asOf knowledgeAsOf : Text) :
    Option PriceRow :=
  (Search.maxByKey (fun o => toLex (o.row.tradeDate, o.row.observedAt)) (published t t.prices fun o _ =>
    o.row.instrumentId = instrumentId && o.row.board = venue.board && o.row.session = venue.session &&
      o.row.tradeDate ≤ asOf && o.row.observedAt ≤ knowledgeAsOf)).map Observation.row

def accruedInterestAtOrBefore (t : Tables) (instrumentId : Text) (venue : PriceVenue) (asOf knowledgeAsOf : Text) :
    Option AccruedInterestRow :=
  (Search.maxByKey (fun o => toLex (o.row.tradeDate, o.row.observedAt)) (published t t.accruedInterest fun o _ =>
    o.row.instrumentId = instrumentId && o.row.board = venue.board && o.row.session = venue.session &&
      o.row.tradeDate ≤ asOf && o.row.observedAt ≤ knowledgeAsOf)).map Observation.row

def MarketWindow.covers (window : MarketWindow) (tradeDate observedAt : Text) : Bool :=
  window.«from» ≤ tradeDate && tradeDate ≤ window.«to» && observedAt ≤ window.knowledgeAsOf

def pricesForInstrumentBetween (t : Tables) (sourceId dataset instrumentId : Text) (window : MarketWindow) : List PriceRow :=
  (Numbered.sortBy (fun o => toLex (o.row.tradeDate, toLex (o.row.observedAt, toLex (o.row.board,
    toLex (o.row.session, o.row.kind))))) (published t t.prices fun o r =>
      o.sourceId = sourceId && r.series.sourceId = sourceId && r.series.dataset = dataset &&
        o.row.instrumentId = instrumentId && window.covers o.row.tradeDate o.row.observedAt)).map Observation.row

def pricesBetween (t : Tables) (series : SeriesKey) (instrumentId : Text) (venue : PriceVenue) (window : MarketWindow) :
    List PriceRow :=
  (Numbered.sortBy (fun o => toLex (o.row.tradeDate, toLex (o.row.observedAt, o.row.kind))) (published t t.prices fun o r =>
    o.sourceId = series.sourceId && r.series = series && o.row.instrumentId = instrumentId &&
      o.row.board = venue.board && o.row.session = venue.session &&
      window.covers o.row.tradeDate o.row.observedAt)).map Observation.row

def fxBetween (t : Tables) (series : SeriesKey) (fromCode toCode : Text) (window : MarketWindow) : List FxRow :=
  (Numbered.sortBy (fun o => toLex (o.row.tradeDate, o.row.observedAt)) (published t t.fx fun o r =>
    o.sourceId = series.sourceId && r.series = series && o.row.fromCode = fromCode && o.row.toCode = toCode &&
      window.covers o.row.tradeDate o.row.observedAt)).map Observation.row

def keyRatesThrough (t : Tables) (series : SeriesKey) (through knowledgeAsOf : Text) : List KeyRateRow :=
  (Numbered.sortBy (fun o => toLex (o.row.tradeDate, o.row.observedAt)) (published t t.keyRates fun o r =>
    o.sourceId = series.sourceId && r.series = series && o.row.tradeDate ≤ through &&
      o.row.observedAt ≤ knowledgeAsOf)).map Observation.row

end Market
end Iaam
