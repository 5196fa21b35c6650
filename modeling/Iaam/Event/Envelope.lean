import Iaam.Event.Kind

/-! The journal event (`event/mod.rs`, `event/provenance.rs`): one recorded fact with its dates, its
place in the order of replay, its legs and its origin. -/

namespace Iaam

inductive RuleSettlement where
  | noRule
  | rule (rule : ClassificationRuleId) (version : Nat)
  | answeredMintingRule (rule : ClassificationRuleId) (version : Nat)
  deriving DecidableEq, Repr

structure RowLocator where
  document : String
  sheet : Option String
  row : Nat
  deriving DecidableEq, Repr

/-- Where a fact came from. `rawHash` is a hexadecimal text, compared as text. -/
structure Provenance where
  source : SourceId
  rawHash : String
  parserVersion : String
  sourceOperationId : Option String := none
  sourcePositionId : Option String := none
  sourceCategory : Option String := none
  sourceKind : Option String := none
  ownerCategory : Option String := none
  sourceCode : Option String := none
  description : Option String := none
  counterparty : Option String := none
  «import» : Option ImportId := none
  declaredBy : Option PrincipalId := none
  importSession : Option ImportSessionId := none
  ruleSettlement : Option RuleSettlement := none
  row : Option RowLocator := none
  deriving DecidableEq, Repr

inductive Confidence where
  | known | estimated | unknown
  deriving DecidableEq, Repr

inductive Relation where
  | none
  | reversal (target : EventId)
  | replacement (target : EventId)
  deriving DecidableEq, Repr

structure Event where
  id : EventId
  owner : OwnerId
  account : AccountId
  kind : EventKind
  dates : EventDates
  order : EffectiveOrder
  legs : List Leg
  provenance : Provenance
  relation : Relation
  confidence : Confidence
  idempotencyKey : Option String
  deriving DecidableEq

/-- `event_with`: a known event with no relation, posted on a day. The identifier is given, where the source
    draws one. -/
def eventWith (id : EventId) (account : AccountId) (day : Date) (sequence : Nat) (kind : EventKind) (legs : List Leg) :
    Event where
  id
  owner := ⟨0⟩
  account
  kind
  dates := .forCash day
  order := ⟨day, none, sequence⟩
  legs
  provenance := ⟨⟨0⟩, "d", "test/1", none, none, none, none, none, none, none, none, none, none, none, none, none⟩
  relation := .none
  confidence := .known
  idempotencyKey := none

/-- The order of replay: day, source time, raw hash between timed events, sequence, identifier. -/
def compareForReplay (l r : Event) : Ordering :=
  (compare l.order.date r.order.date).then
    ((compareSourceTime l.order.sourceTime r.order.sourceTime).then
      ((if l.order.sourceTime.isSome then compare l.provenance.rawHash r.provenance.rawHash else .eq).then
        ((compare l.order.sequence r.order.sequence).then (compare l.id r.id))))

end Iaam
