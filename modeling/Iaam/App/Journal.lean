import Iaam.App.Correction
import Iaam.Journal.Query
import Iaam.Journal.Text
import Iaam.Lib.Fields
import Iaam.Store.Journal

/-! Reading the journal page by page (`scenarios/journal.rs`): what a request may ask for, and the position a page names for
the next one. -/

namespace Iaam

def defaultPageSize : Nat := 50

/-- The largest page a caller may ask for. -/
def maxPageSize : Nat := 1000

/-- A source named the way an importer names it. -/
structure DeclaredSource where
  account : AccountId
  channel : String
  deriving DecidableEq, Repr

structure JournalReadQuery where
  idempotencyKey : Option String := none
  account : Option AccountId := none
  touching : Option AccountId := none
  kinds : List String := []
  currencies : List CurrencyCode := []
  source : Option DeclaredSource := none
  «import» : Option ImportId := none
  importSession : Option ImportSessionId := none
  settledByRule : Option ClassificationRuleId := none
  category : Option CategoryId := none
  uncategorised : Bool := false
  counterparty : Option AccountId := none
  /-- Only events that stand, or only those that do not. -/
  stands : Option Bool := none
  «from» : Option Date := none
  «to» : Option Date := none
  after : Option String := none
  limit : Option Nat := none

/-- An event as a reader sees it. The other fields of the view are the event's own. -/
structure JournalEventView where
  event : Event
  supersededBy : Option SupersededBy
  stands : Bool
  deriving DecidableEq

structure JournalPage where
  rows : List JournalEventView
  next : Option String
  deriving DecidableEq

/-- The texts of the libraries, and the identifier that a declared source has. -/
structure JournalTexts where
  codecs : TextCodecs
  trim : String → String
  toLowercase : String → String
  declared : OwnerId → AccountId → String → SourceId

/-! ### What may be asked for -/

def pageSize : Option Nat → Except AppError Nat
  | none => .ok defaultPageSize
  | some limit =>
    if limit = 0 ∨ maxPageSize < limit then
      .error (.invalid "limit" s!"a page size between 1 and {maxPageSize}" (toString limit))
    else .ok limit

def dateRange (t : JournalTexts) : Option Date → Option Date → Except AppError (Option Date × Option Date)
  | some first, some last =>
    if last < first then
      .error (.invalid "to" s!"a date on or after from ({t.codecs.dateText first})" (t.codecs.dateText last))
    else .ok (some first, some last)
  | first, last => .ok (first, last)

/-- A category and the absence of one are not asked for together. -/
def categoryFilter (category : Option CategoryId) (uncategorised : Bool) : Except AppError Unit :=
  if category.isSome ∧ uncategorised = true then
    .error (.invalid "uncategorised" "not combined with category" "true")
  else .ok ()

/-- The bound on the channel is the one of the import. -/
def declaredSource (t : JournalTexts) (owner : OwnerId) (declared : DeclaredSource) : Except AppError SourceId :=
  let channel := t.trim declared.channel
  if channel = "" ∨ 32 < channel.utf8ByteSize then
    .error (.invalid "source_channel" "a short channel name of 1 to 32 characters, such as file, paste or manual"
      declared.channel)
  else .ok (t.declared owner declared.account channel)

/-! ### Positions as texts -/

def formatCursor (c : TextCodecs) (position : JournalCursor) : String :=
  String.ofList ((c.dateText position.effectiveDate).toList ++ ':' :: Fields.numeral position.sequence)

def parseCursor (c : TextCodecs) (value : String) : Except AppError JournalCursor :=
  let invalid := .error (.invalid "after" "a position returned as next by an earlier page" value)
  match Fields.splitOnce ':' value.toList with
  | none => invalid
  | some (date, sequence) =>
    match c.parseDate (String.ofList date), Fields.parseUnsigned JournalStore.lastSequence sequence with
    | some effectiveDate, some sequence => .ok ⟨effectiveDate, sequence⟩
    | _, _ => invalid

/-! ### One page -/

def journalEventView (supersession : Supersession) (e : Event) : JournalEventView :=
  ⟨e, supersession.supersededBy e.id, e.id ∈ supersession.stands⟩

/-- The query of the store: one row more than the page has is asked for. -/
def storeQuery (query : JournalReadQuery) (range : Option Date × Option Date) (after : Option JournalCursor)
    (source : Option SourceId) (limit : Nat) : JournalQuery where
  idempotencyKey := query.idempotencyKey
  account := query.account
  touching := query.touching
  kinds := query.kinds
  currencies := query.currencies
  source := source
  «import» := query.import
  importSession := query.importSession
  settledByRule := query.settledByRule
  category := query.category
  uncategorised := query.uncategorised
  counterparty := query.counterparty
  «from» := range.1
  «to» := range.2
  after
  limit := min (limit + 1) JournalStore.lastSequence

/-- Reads one page. The correction graph is read after the events, from the store as it is then. -/
def readJournal (t : JournalTexts) (s later : CategoryStore) (owner : OwnerId) (query : JournalReadQuery) :
    Except AppError JournalPage := do
  let limit ← pageSize query.limit
  let range ← dateRange t query.from query.to
  let after ← query.after.mapM (parseCursor t.codecs)
  categoryFilter query.category query.uncategorised
  let source ← query.source.mapM (declaredSource t owner)
  let (events, _) := listJournalEvents t.toLowercase s owner (storeQuery query range after source limit)
  let supersession ← (resolveSupersession (listJournalEventRelations later owner)).mapError .correction
  match events, query.idempotencyKey with
  | [], some key => .error (.notFound "journal event by idempotency key" key)
  | _, _ =>
    let page := events.take limit
    let shown := page.filter fun e => query.stands.all fun stands => decide (e.id ∈ supersession.stands) = stands
    return {
      rows := shown.map (journalEventView supersession)
      next := if limit < events.length then page.getLast?.map fun e => formatCursor t.codecs e.cursor else none }

end Iaam
