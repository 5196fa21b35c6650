import Iaam.Lib.Tree
import Mathlib.Data.String.Basic

/-! Identities, dates and the order of events (`ids.rs`, `dates.rs`). -/

namespace Iaam

/-! ### Identities -/

/-- What an identifier names. Identifiers of different kinds do not mix. -/
inductive IdKind where
  | owner | account | custody | instrument | source | import_ | event | transfer | classificationRule
  | principal | importSession | offerSubmission | offerWindow | lot | contour | category | categoryRule

/-- A UUID, compared as a number. -/
structure Ident (kind : IdKind) where
  uuid : Nat
  deriving DecidableEq, Repr

instance {kind : IdKind} : LinearOrder (Ident kind) :=
  LinearOrder.lift' Ident.uuid fun a b h => by cases a; cases b; cases h; rfl

instance {kind : IdKind} : LawfulBEq (Ident kind) := inferInstance

instance {kind : IdKind} : Std.TransCmp (compare : Ident kind → Ident kind → Ordering) := Tree.transCmp

abbrev OwnerId := Ident .owner
abbrev AccountId := Ident .account
abbrev CustodyId := Ident .custody
abbrev InstrumentId := Ident .instrument
abbrev SourceId := Ident .source
abbrev ImportId := Ident .import_
abbrev EventId := Ident .event
abbrev TransferId := Ident .transfer
abbrev ClassificationRuleId := Ident .classificationRule
abbrev PrincipalId := Ident .principal
abbrev ImportSessionId := Ident .importSession
abbrev OfferSubmissionId := Ident .offerSubmission
abbrev OfferWindowId := Ident .offerWindow
abbrev LotId := Ident .lot
abbrev ContourId := Ident .contour
abbrev CategoryId := Ident .category
abbrev CategoryRuleId := Ident .categoryRule

/-! ### Dates -/

/-- A calendar date, as a day number counted from 1 January 1970. -/
structure Date where
  day : Int
  deriving DecidableEq, Repr

namespace Date

instance : LinearOrder Date := LinearOrder.lift' Date.day fun a b h => by cases a; cases b; cases h; rfl

theorem le_iff {a b : Date} : a ≤ b ↔ a.day ≤ b.day := Iff.rfl

/-- The day after. -/
def next (d : Date) : Date := ⟨d.day + 1⟩

/-- 31 December 9999, the last date there is. -/
def max : Date := ⟨2932896⟩

/-- The date so many days later, unless it lies beyond the last date. -/
def checkedAddDays (d : Date) (days : Nat) : Option Date :=
  if d.day + days ≤ max.day then some ⟨d.day + days⟩ else none

end Date

/-- A time of day, in nanoseconds since midnight. -/
structure Time where
  nanos : Nat
  deriving DecidableEq, Repr

instance : LinearOrder Time := LinearOrder.lift' Time.nanos fun a b h => by cases a; cases b; cases h; rfl

/-- A moment of knowledge, in nanoseconds from the epoch. -/
structure OffsetDateTime where
  nanos : Int
  deriving DecidableEq, Repr

instance : LinearOrder OffsetDateTime :=
  LinearOrder.lift' OffsetDateTime.nanos fun a b h => by cases a; cases b; cases h; rfl

/-- The dates of an event. The five date types of the source wrap one calendar date each. -/
structure EventDates where
  trade : Option Date
  settled : Option Date
  cashPosted : Option Date
  entitlement : Option Date
  paid : Option Date
  taxPeriodOverride : Option Int
  deriving DecidableEq, Repr

namespace EventDates

def empty : EventDates := ⟨none, none, none, none, none, none⟩

def forTrade (trade : Date) (settled : Option Date) : EventDates := { empty with trade := some trade, settled }

def forCash (posted : Date) : EventDates := { empty with cashPosted := some posted }

/-- Settlement, then cash movement, then payment, then trade. -/
def effectiveDate (d : EventDates) : Option Date :=
  ((d.settled.or d.cashPosted).or d.paid).or d.trade

end EventDates

/-! ### The order of events -/

/-- Position of an event in the journal: day, time of day when the source knew it, technical sequence. -/
structure EffectiveOrder where
  date : Date
  sourceTime : Option Time
  sequence : Nat
  deriving DecidableEq, Repr

/-- Known times come in their order, and before a moment that is not known. -/
def compareSourceTime : Option Time → Option Time → Ordering
  | some l, some r => compare l r
  | some _, none => .lt
  | none, some _ => .gt
  | none, none => .eq

namespace EffectiveOrder

def cmp (l r : EffectiveOrder) : Ordering :=
  (compare l.date r.date).then
    ((compareSourceTime l.sourceTime r.sourceTime).then (compare l.sequence r.sequence))

/-- `l <= r` in the order of `EffectiveOrder`. -/
def le (l r : EffectiveOrder) : Bool := l.cmp r != .gt

end EffectiveOrder
end Iaam
