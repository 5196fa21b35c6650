import Iaam.Ingest.Observation

/-! What was submitted for a row, the answers of the owner, and his accounts by the names that documents use for them
(`observation.rs`, `classification.rs`, `csv_source.rs` of the ingestion). -/

namespace Iaam

def OperationDates.effectiveDate (d : OperationDates) : Option Date := d.toEventDates.effectiveDate

/-- The direction that an outcome is, where it is one. -/
def Classification.impliedMovement : Classification → Option Classification.Movement
  | fee _ => some .out
  | income _ | refund => some .in
  | internalTransfer _ | externalFlow | ownAccountMovement => none

/-- What the owner can say of a row. -/
inductive Answer where
  | sentToOwnAccount («to» : AccountId)
  | receivedFromOwnAccount («from» : AccountId)
  | paid
  | received
  | fee (origin : FeeOrigin)
  | income (kind : Option IncomeKind)
  | refund
  | betweenOwnAccounts
  deriving DecidableEq, Repr

namespace Answer

def movement : Answer → Option Classification.Movement
  | sentToOwnAccount _ | paid | fee _ => some .out
  | receivedFromOwnAccount _ | received | income _ | refund => some .in
  | betweenOwnAccounts => none

def classification : Answer → Classification
  | sentToOwnAccount target => .internalTransfer target
  | receivedFromOwnAccount source => .internalTransfer source
  | paid | received => .externalFlow
  | fee origin => .fee origin
  | income kind => .income kind
  | refund => .refund
  | betweenOwnAccounts => .ownAccountMovement

end Answer

namespace ObservedRow

/-- The row as the classifier asks about it, with what the directory made of its counterparty. -/
def subject (row : ObservedRow) (resolved : Option AccountId) : ClassificationSubject where
  account := row.account
  counterparty :=
    match resolved, row.counterparty with
    | some account, _ => .ownAccount account
    | none, .named name => .named name
    | none, .unknown => .unknown
  description := row.description
  sourceKind := row.sourceKind
  sourceCategory := row.sourceCategory
  ownerCategory := row.ownerCategory
  sourceCode := row.sourceCode
  movement := row.movement
  farSide := row.farSide

/-- The direction of the answer comes before the one of the row. -/
def resolveWith (row : ObservedRow) (answer : Answer) : Except Rejection SubmittedOperation :=
  row.resolve answer.classification (answer.movement.or row.movement)

end ObservedRow

/-- One submitted line. -/
inductive Intake where
  | concluded (operation : SubmittedOperation)
  | observed (row : ObservedRow) (reader : Option String)
  deriving DecidableEq

namespace Intake

def reader : Intake → Option String
  | concluded _ => none
  | observed _ reader => reader

/-- The account whose statement the row is on. -/
def account : Intake → AccountId
  | concluded operation => operation.account
  | observed row _ => row.account

def statedDay : Intake → Option Date
  | concluded operation => operation.dates.effectiveDate
  | observed row _ => row.dates.effectiveDate

end Intake

/-! ### The accounts of the owner -/

/-- The end is the first day on which the alias is no longer valid. -/
structure AliasInterval where
  validFrom : Date
  validTo : Option Date
  deriving DecidableEq, Repr

def AliasInterval.covers (i : AliasInterval) (on : Date) : Bool :=
  decide (i.validFrom ≤ on) && i.validTo.all fun «end» => on < «end»

/-- What the standard library makes of a text. The case and the white space are those of Unicode. -/
structure Words where
  toLowercase : String → String
  trim : String → String
  parseUuid : String → Option Nat

structure AccountEntry where
  id : AccountId
  printed : List (String × Option AliasInterval)
  title : String
  deriving DecidableEq, Repr

/-- An identity has no interval, and without a day no interval is asked about. -/
def AccountEntry.identifies (entry : AccountEntry) (printed : String) (on : Option Date) : Bool :=
  entry.printed.any fun (value, interval) => value = printed && interval.all fun interval => on.all interval.covers

/-- The accounts a name could be, from the strongest evidence that recognises any: the identifier of the account, what its
    source prints for it, its title. -/
def candidates (words : Words) (entries : List AccountEntry) (name : String) (on : Option Date) : List AccountId :=
  let printed := words.trim name
  let own := (entries.filter fun entry => words.parseUuid printed = some entry.id.uuid).map AccountEntry.id
  if own ≠ [] then own
  else
    let identified := (entries.filter fun entry => entry.identifies printed on).map AccountEntry.id
    if identified ≠ [] then identified
    else
      let wanted := words.toLowercase printed
      (entries.filter fun entry => words.toLowercase (words.trim entry.title) = wanted).map AccountEntry.id

end Iaam
