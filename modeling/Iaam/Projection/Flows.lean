import Iaam.Event.Envelope

/-! Money across the contour boundary (`contour.rs`, `projection/flows.rs`). -/

namespace Iaam

structure ContourDefinition where
  id : ContourId
  version : Nat
  accounts : Tree.Set AccountId

def ContourDefinition.contains (def_ : ContourDefinition) (account : AccountId) : Bool := account ∈ def_.accounts

inductive FlowClass where
  | externalIn (contour : ContourId) (version : Nat)
  | externalOut (contour : ContourId) (version : Nat)
  | internal
  | indeterminate (contour : ContourId) (version : Nat)
  | irrelevant
  deriving DecidableEq, Repr

/-- The class follows from the pair of memberships. -/
def classify (c : ContourDefinition) (e : Event) : FlowClass :=
  match e.kind.flowEndpoints with
  | .inboundFromOutside => if c.contains e.account then .externalIn c.id c.version else .irrelevant
  | .outboundToOutside => if c.contains e.account then .externalOut c.id c.version else .irrelevant
  | .betweenAccounts source target =>
    match c.contains source, c.contains target with
    | true, true => .internal
    | false, true => .externalIn c.id c.version
    | true, false => .externalOut c.id c.version
    | false, false => .irrelevant
  | .ownAccountUnnamed => if c.contains e.account then .indeterminate c.id c.version else .irrelevant
  | .withinAccount => if c.contains e.account then .internal else .irrelevant

inductive FlowDirection where
  | «in» | out
  deriving DecidableEq, Repr

structure ExternalFlow where
  event : EventId
  date : Date
  amount : Money
  direction : FlowDirection
  contour : ContourId
  version : Nat
  deriving DecidableEq, Repr

inductive FlowError where
  | flowWithoutDate (event : EventId)
  | directionContradictsAmount (event : EventId) (direction : FlowDirection) (amount : Int) (currency : CurrencyCode)
  | overflow (event : EventId)
  deriving DecidableEq, Repr

structure FlowLog where
  external : List ExternalFlow
  internal : Nat
  indeterminate : Nat
  irrelevant : Nat
  deriving DecidableEq, Repr

def movesMoney (e : Event) : Bool := e.legs.any fun leg => leg.cashEffect.isSome

/-- The cash effect on the accounts of the contour, by currency; what nets to zero is left out. -/
def contourCashEffect (e : Event) (c : ContourDefinition) : Except FlowError (List (CurrencyCode × PostedMinor)) := do
  let totals ← e.legs.foldlM (fun (totals : Tree.Map CurrencyCode PostedMinor) leg =>
    match c.contains leg.account, leg.cashEffect with
    | true, some money =>
      match (totals[money.currency]?.getD .zero).checkedAdd money.amount with
      | some sum => .ok (totals.insert money.currency sum)
      | none => .error (.overflow e.id)
    | _, _ => .ok totals) ∅
  return totals.toList.filter fun (_, amount) => amount.raw ≠ 0

def requireSignMatches (event : EventId) (direction : FlowDirection) (money : Money) : Except FlowError Unit :=
  let raw := money.amount.raw
  let ok := match direction with
    | .in => decide (raw > 0)
    | .out => decide (raw < 0)
  if ok then .ok () else .error (.directionContradictsAmount event direction raw money.currency)

namespace FlowLog

def empty : FlowLog := ⟨[], 0, 0, 0⟩

/-- Records the flows of an event that crosses the boundary. -/
def record (log : FlowLog) (e : Event) (c : ContourDefinition) (direction : FlowDirection) (contour : ContourId)
    (version : Nat) : Except FlowError FlowLog := do
  let date ← match e.dates.effectiveDate with
    | some date => .ok date
    | none => .error (.flowWithoutDate e.id)
  let effects ← contourCashEffect e c
  effects.foldlM (fun (log : FlowLog) (currency, amount) => do
    let money : Money := ⟨amount, currency⟩
    requireSignMatches e.id direction money
    return { log with external := log.external ++ [⟨e.id, date, money, direction, contour, version⟩] }) log

def apply (log : FlowLog) (e : Event) (c : ContourDefinition) : Except FlowError FlowLog :=
  match classify c e with
  | .externalIn contour version => log.record e c .in contour version
  | .externalOut contour version => log.record e c .out contour version
  | .internal => .ok (if movesMoney e then { log with internal := log.internal + 1 } else log)
  | .indeterminate _ _ => .ok (if movesMoney e then { log with indeterminate := log.indeterminate + 1 } else log)
  | .irrelevant => .ok (if movesMoney e then { log with irrelevant := log.irrelevant + 1 } else log)

end FlowLog
end Iaam
