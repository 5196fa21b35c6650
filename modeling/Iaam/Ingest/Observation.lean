import Iaam.Ingest.Operation

/-! One row of a source as it was observed (`observation.rs`), and the operation it becomes once its
classification and its direction are known. -/

namespace Iaam

inductive ObservedDirection where
  | in | out | inner | unknown
  deriving DecidableEq, Repr

def ObservedDirection.movement : ObservedDirection → Option Classification.Movement
  | .in => some .in
  | .out => some .out
  | .inner | .unknown => none

inductive ObservedCounterparty where
  | named (name : String)
  | unknown
  deriving DecidableEq, Repr

structure RowIdentity where
  document : Option String
  row : Option String
  idempotencyKey : Option String
  deriving DecidableEq, Repr

structure ObservedRow where
  account : AccountId
  direction : ObservedDirection
  amountMinor : PostedMinor
  currency : CurrencyCode
  counterparty : ObservedCounterparty
  farSide : FarSide
  sourceKind : Option String
  sourceCategory : Option String
  ownerCategory : Option String
  sourceCode : Option String
  description : Option String
  dates : OperationDates
  sourceTime : Option Time
  identity : RowIdentity
  deriving DecidableEq

/-- The words of a refusal for what was to be recorded. -/
def Classification.outcomeWord : Classification → String
  | internalTransfer _ => "a transfer to a named own account"
  | externalFlow => "movement outside the portfolio"
  | fee _ => "a fee"
  | refund => "a refund"
  | income _ => "income"
  | ownAccountMovement => "a movement between own accounts"

def Classification.Movement.word : Classification.Movement → String
  | .in => "incoming"
  | .out => "outgoing"

namespace ObservedRow

def movement (row : ObservedRow) : Option Classification.Movement := row.direction.movement

def counterpartyName (row : ObservedRow) : Option String :=
  match row.counterparty with
  | .named name => some name
  | .unknown => none

/-- The amount without its sign: neither zero nor the one value whose magnitude does not fit. -/
def magnitude (row : ObservedRow) : Except Rejection PostedMinor :=
  match (PostedMinor.ofInt |row.amountMinor.raw|).filter fun value => 0 < value.raw with
  | some value => .ok value
  | none => .error ⟨"amount", "a non-zero amount the source stated", toString row.amountMinor.raw⟩

def selfTransfer (row : ObservedRow) : Rejection :=
  ⟨"answer", "an account different from the one the row is on", row.account.text⟩

/-- What every operation of the row carries of it, filed on an account. -/
def envelope (row : ObservedRow) (account : AccountId) (kind : OperationKind) : SubmittedOperation where
  account
  kind
  dates := row.dates
  sourceTime := row.sourceTime
  idempotencyKey := row.identity.idempotencyKey
  sourceOperationId := row.identity.row
  sourcePositionId := none
  sourceCategory := row.sourceCategory
  ownerCategory := row.ownerCategory
  sourceCode := row.sourceCode
  sourceKind := row.sourceKind
  description := row.description
  counterparty := row.counterpartyName

/-- The operation a row becomes. A transfer that was received is filed on the account the money left. -/
def resolve (row : ObservedRow) (classification : Classification) (movement : Option Classification.Movement) :
    Except Rejection SubmittedOperation := do
  let amountMinor ← row.magnitude
  match movement with
  | none =>
    match classification with
    | .ownAccountMovement =>
      return row.envelope row.account (.ownAccountMovement none amountMinor row.currency)
    | other =>
      .error ⟨"answer",
        "a direction, which every outcome except a movement between own accounts needs before it can be recorded",
        other.outcomeWord ++ ", with no direction"⟩
  | some movement =>
    match classification, movement with
    | .ownAccountMovement, movement =>
      return row.envelope row.account (.ownAccountMovement (some movement) amountMinor row.currency)
    | .internalTransfer target, .out =>
      if target = row.account then .error row.selfTransfer
      else return row.envelope row.account (.transfer target amountMinor row.currency)
    | .internalTransfer target, .in =>
      if target = row.account then .error row.selfTransfer
      else return row.envelope target (.transfer row.account amountMinor row.currency)
    | .externalFlow, .out => return row.envelope row.account (.withdrawal amountMinor row.currency)
    | .externalFlow, .in => return row.envelope row.account (.deposit amountMinor row.currency)
    | .fee origin, .out => return row.envelope row.account (.fee amountMinor row.currency origin)
    | .income kind, .in => return row.envelope row.account (.income none amountMinor row.currency kind)
    | .refund, .in => return row.envelope row.account (.refund amountMinor row.currency)
    | .fee _, .in | .income _, .out | .refund, .out =>
      .error ⟨"answer",
        "an answer whose direction matches what it names: a fee leaves the account, and income and a refund arrive at it",
        movement.word ++ " money"⟩

end ObservedRow
end Iaam
