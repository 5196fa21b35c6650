import Iaam.Event.Envelope

/-! Settlement knowledge and ownership over time (`settlement.rs`, `projection/ownership.rs`). -/

namespace Iaam

inductive SettlementKnowledge where
  | exact (date : Date)
  | bounded (earliest latest : Date)
  | unbounded
  deriving DecidableEq, Repr

inductive Applied where
  | yes | no | maybe
  deriving DecidableEq, Repr

namespace SettlementKnowledge

/-- The interval is closed at both ends: on its days it is not known whether the event took effect. -/
def within (earliest latest day : Date) : Applied :=
  if latest < day then .yes else if day < earliest then .no else .maybe

def appliedBefore : SettlementKnowledge → Date → Applied
  | exact date, day => within date date day
  | bounded earliest latest, day => within earliest latest day
  | unbounded, _ => .maybe

end SettlementKnowledge

structure SettlementLagPolicy where
  version : Nat
  maxCalendarDays : Tree.Map String Nat

namespace SettlementLagPolicy

def v1 : SettlementLagPolicy := ⟨1, ∅⟩

def withProfile (p : SettlementLagPolicy) (profile : String) (days : Nat) : SettlementLagPolicy :=
  { p with maxCalendarDays := p.maxCalendarDays.insert profile days }

def knowledge (p : SettlementLagPolicy) (dates : EventDates) (parserVersion : String) : SettlementKnowledge :=
  match dates.settled with
  | some settled => .exact settled
  | none =>
    match dates.trade with
    | none => .unbounded
    | some trade =>
      match p.maxCalendarDays[parserVersion]? with
      | none => .unbounded
      | some days =>
        match trade.checkedAddDays days with
        | none => .unbounded
        | some latest => .bounded trade latest

end SettlementLagPolicy

inductive Ownership where
  | owned | notOwned | unknown
  deriving DecidableEq, Repr

structure OwnershipChange where
  delta : Quantity
  settlement : SettlementKnowledge
  deriving DecidableEq, Repr

structure OwnershipHistory where
  changes : List OwnershipChange
  deriving DecidableEq, Repr

namespace OwnershipHistory

def empty : OwnershipHistory := ⟨[]⟩

def observe (h : OwnershipHistory) (delta : Quantity) (settlement : SettlementKnowledge) : OwnershipHistory :=
  ⟨h.changes ++ [⟨delta, settlement⟩]⟩

/-- The least and the greatest balance the changes allow before a day; an overflow leaves it open. -/
def bounds (day : Date) (range : Dec × Dec) (change : OwnershipChange) : Except NumericError (Dec × Dec) :=
  match change.settlement.appliedBefore day with
  | .yes => do
    let minimum ← range.1.checkedAdd change.delta
    let maximum ← range.2.checkedAdd change.delta
    return (minimum, maximum)
  | .no => .ok range
  | .maybe =>
    if change.delta.isNegative then do
      let minimum ← range.1.checkedAdd change.delta
      return (minimum, range.2)
    else do
      let maximum ← range.2.checkedAdd change.delta
      return (range.1, maximum)

def ownershipAt (h : OwnershipHistory) (day : Date) : Ownership :=
  match h.changes.foldlM (bounds day) (Dec.zero, Dec.zero) with
  | .error _ => .unknown
  | .ok (minimum, maximum) =>
    if minimum.isPositive then .owned else if maximum.isZero then .notOwned else .unknown

end OwnershipHistory
end Iaam
