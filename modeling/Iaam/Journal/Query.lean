import Iaam.Journal.CategoryIndex
import Mathlib.Data.List.Sort
import Mathlib.Data.Prod.Lex

/-! The paginated listing of the journal (`journal/query.rs`): the filters, the order of the rows and the cursor from which
a page goes on. The clauses of the SQL text are predicates on the rows they read. -/

namespace Iaam

/-- Position in the journal's total order. -/
structure JournalCursor where
  effectiveDate : Date
  sequence : Nat
  deriving DecidableEq, Repr

/-- One narrowed page of an owner's journal. -/
structure JournalQuery where
  event : Option EventId := none
  idempotencyKey : Option String := none
  account : Option AccountId := none
  touching : Option AccountId := none
  kinds : List String := []
  currencies : List CurrencyCode := []
  source : Option SourceId := none
  importSession : Option ImportSessionId := none
  «import» : Option ImportId := none
  settledByRule : Option ClassificationRuleId := none
  category : Option CategoryId := none
  uncategorised : Bool := false
  counterparty : Option AccountId := none
  «from» : Option Date := none
  «to» : Option Date := none
  after : Option JournalCursor := none
  limit : Nat := 0

/-! ### The columns of a row -/

def Event.cursor (e : Event) : JournalCursor := ⟨e.order.date, e.order.sequence⟩

/-- The order of the rows, by day and then by sequence. -/
def JournalCursor.position (c : JournalCursor) : Date ×ₗ Nat := toLex (c.effectiveDate, c.sequence)

/-- The column `settled_by_rule`. -/
def Event.settledByRule (e : Event) : Option ClassificationRuleId :=
  e.provenance.ruleSettlement.bind fun
    | .noRule => none
    | .rule rule _ | .answeredMintingRule rule _ => some rule

/-- A transfer whose other end, seen from the account it is filed under, is this account. -/
def isFarAccount (counterparty : AccountId) (e : Event) : Bool :=
  match e.kind with
  | .cashTransfer _ source target _ =>
    e.account = source && target = counterparty || e.account = target && source = counterparty
  | _ => false

def hasCurrency (currencies : List CurrencyCode) (e : Event) : Bool :=
  e.legs.any fun leg => leg.money.any fun money => money.currency ∈ currencies

def touches (account : AccountId) (e : Event) : Bool :=
  e.account = account || e.legs.any fun leg => leg.account = account

/-! ### The clauses -/

namespace JournalQuery

/-- Every clause but the cursor and the limit. A handle that is not set admits everything. -/
def admits (q : JournalQuery) (s : CategoryStore) (owner : OwnerId) (e : Event) : Bool :=
  e.owner = owner &&
  (q.kinds = [] || e.kind.discriminant ∈ q.kinds) &&
  (q.currencies = [] || hasCurrency q.currencies e) &&
  q.event.all (fun id => e.id = id) &&
  q.idempotencyKey.all (fun key => e.idempotencyKey = some key) &&
  q.account.all (fun account => e.account = account) &&
  q.touching.all (fun account => touches account e) &&
  q.source.all (fun source => e.provenance.source = source) &&
  q.import.all (fun name => e.provenance.import = some name) &&
  q.importSession.all (fun session => e.provenance.importSession = some session) &&
  q.settledByRule.all (fun rule => e.settledByRule = some rule) &&
  q.category.all (fun category =>
    s.assignments.any fun row => row.owner = e.owner && row.event = e.id && row.category = category) &&
  (!q.uncategorised || !s.assignments.any fun row => row.owner = e.owner && row.event = e.id) &&
  q.counterparty.all (fun account => isFarAccount account e) &&
  q.from.all (fun day => day ≤ e.order.date) &&
  q.to.all (fun day => e.order.date ≤ day)

/-- Strictly after the cursor, in the order of the rows. -/
def isAfter (q : JournalQuery) (e : Event) : Bool :=
  q.after.all fun c => c.effectiveDate < e.order.date || c.effectiveDate = e.order.date && c.sequence < e.order.sequence

end JournalQuery

/-! ### Listings -/

/-- The rows of a page. -/
def journalRows (s : CategoryStore) (owner : OwnerId) (q : JournalQuery) : List Event :=
  ((s.events.filter fun e => q.admits s owner e && q.isAfter e).insertionSort fun l r =>
    l.cursor.position ≤ r.cursor.position).take q.limit

/-- Whether the page reads the category index. -/
def JournalQuery.readsCategories (q : JournalQuery) : Bool := q.category.isSome || q.uncategorised

/-- A page, and the store behind it: an index that is out of date is rebuilt before it answers. -/
def listJournalEvents (toLowercase : String → String) (s : CategoryStore) (owner : OwnerId) (q : JournalQuery) :
    List Event × CategoryStore :=
  let s := if q.readsCategories && s.isStale owner then (s.rebuild toLowercase owner).1 else s
  (journalRows s owner q, s)

/-- The correction graph of an owner. -/
def listJournalEventRelations (s : CategoryStore) (owner : OwnerId) : List (EventId × Relation) :=
  ((s.events.filter fun e => e.owner = owner).insertionSort fun l r => l.cursor.position ≤ r.cursor.position).map fun e =>
    (e.id, e.relation)

end Iaam
