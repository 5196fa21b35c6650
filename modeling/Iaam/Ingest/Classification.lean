import Iaam.Event.Correction
import Iaam.Lib.Search
import Mathlib.Data.List.Infix

/-! Classification of movements (`classification.rs` of the ingestion): what a row says about a movement, what
the owner's rules make of it, and the plan that recomputes history after a rule has changed. -/

namespace Iaam

/-- The text of an identifier: lower-case hexadecimal digits in groups of 8, 4, 4, 4 and 12. -/
def Ident.text {kind : IdKind} (id : Ident kind) : String :=
  let digits := (Nat.toDigits 16 id.uuid).leftpad 32 '0'
  let group := fun start length => String.ofList ((digits.drop start).take length)
  group 0 8 ++ "-" ++ group 8 4 ++ "-" ++ group 12 4 ++ "-" ++ group 16 4 ++ "-" ++ group 20 12

/-! ### What a row says -/

/-- Which way the money went on the account. -/
inductive Classification.Movement where
  | in | out
  deriving DecidableEq, Repr

inductive Counterparty where
  | ownAccount (account : AccountId)
  | named (name : String)
  | unknown
  deriving DecidableEq, Repr

/-- What the source said of the far side, where it named no account. -/
inductive FarSide where
  | unstated | ownAccount
  deriving DecidableEq, Repr

def FarSide.isOwnAccount : FarSide → Bool
  | ownAccount => true
  | unstated => false

structure ClassificationSubject where
  account : AccountId
  counterparty : Counterparty
  description : Option String
  sourceKind : Option String
  sourceCategory : Option String
  ownerCategory : Option String
  sourceCode : Option String
  movement : Option Classification.Movement
  farSide : FarSide
  deriving DecidableEq, Repr

/-! ### Rules -/

/-- The conditions of a rule. What is not set is not asked. -/
structure RuleMatcher where
  counterpartyAccount : Option String
  descriptionContains : Option String
  kind : Option String
  sourceCategory : Option String
  ownerCategory : Option String
  sourceCode : Option String
  movement : Option Classification.Movement
  deriving DecidableEq, Repr

/-- The counterparty that a rule can name: one the row states as a text. -/
def Counterparty.name? : Counterparty → Option String
  | named name => some name
  | ownAccount _ | unknown => none

namespace RuleMatcher

def asksNothing (m : RuleMatcher) : Bool :=
  m.counterpartyAccount.isNone && m.descriptionContains.isNone && m.kind.isNone && m.sourceCategory.isNone &&
    m.ownerCategory.isNone && m.sourceCode.isNone && m.movement.isNone

/-- `is_none_or`: a condition that is not set holds. -/
def holds {α : Type} (condition : Option α) (test : α → Bool) : Bool := (condition.map test).getD true

/-- Every condition that is set holds, and at least one is set. `toLowercase` is the lower-casing of the
    standard library, which ranges over all of Unicode. -/
def «matches» (toLowercase : String → String) (m : RuleMatcher) (subject : ClassificationSubject) : Bool :=
  !m.asksNothing &&
    (holds m.counterpartyAccount (fun wanted => subject.counterparty.name? = some wanted) &&
      holds m.descriptionContains (fun wanted =>
        subject.description.any fun text => decide ((toLowercase wanted).toList <:+: (toLowercase text).toList)) &&
      holds m.kind (fun wanted => subject.sourceKind = some wanted) &&
      holds m.sourceCategory (fun wanted => subject.sourceCategory = some wanted) &&
      holds m.ownerCategory (fun wanted => subject.ownerCategory = some wanted) &&
      holds m.sourceCode (fun wanted => subject.sourceCode = some wanted) &&
      holds m.movement (fun wanted => subject.movement = some wanted))

end RuleMatcher

inductive Classification where
  | internalTransfer («to» : AccountId)
  | externalFlow
  | fee (origin : FeeOrigin)
  | refund
  | income (kind : Option IncomeKind)
  | ownAccountMovement
  deriving DecidableEq, Repr

structure ClassificationRule where
  id : ClassificationRuleId
  version : Nat
  matcher : RuleMatcher
  outcome : Classification
  deriving DecidableEq, Repr

/-! ### Classification of a row -/

/-- What a classification rests on. -/
inductive Basis where
  | derived
  | asserted
  | rule (rule : ClassificationRuleId) (version : Nat)
  deriving DecidableEq, Repr

inductive Question where
  | isTransferInternal (account : AccountId) (counterparty : String)
  | isOutflowAFee (account : AccountId)
  | isInflowIncome (account : AccountId)
  | unresolvedDirection (account : AccountId) (stated counterparty : Option String)
  deriving DecidableEq, Repr

inductive ClassificationResult where
  | resolved (classification : Classification) (basis : Basis)
  | ambiguous (question : Question)
  deriving DecidableEq, Repr

namespace Classification

def questionFor (subject : ClassificationSubject) : Question :=
  match subject.counterparty, subject.movement with
  | .named counterparty, some _ => .isTransferInternal subject.account counterparty
  | .unknown, some .out => .isOutflowAFee subject.account
  | .unknown, some .in => .isInflowIncome subject.account
  | .named counterparty, none => .unresolvedDirection subject.account subject.sourceKind (some counterparty)
  | .unknown, none => .unresolvedDirection subject.account subject.sourceKind none
  | .ownAccount «to», _ => .isTransferInternal subject.account «to».text

/-- The rule that decides a row: of those that match, the one of the highest version. -/
def chosenRule (toLowercase : String → String) (subject : ClassificationSubject) (rules : List ClassificationRule) :
    Option ClassificationRule :=
  Search.maxByKey ClassificationRule.version (rules.filter fun rule => rule.matcher.matches toLowercase subject)

/-- What the row is: an own account by its identity, else what the rules say, else what the source asserted. -/
def classify (toLowercase : String → String) (subject : ClassificationSubject) (rules : List ClassificationRule) :
    ClassificationResult :=
  match subject.counterparty with
  | .ownAccount «to» => .resolved (.internalTransfer «to») .derived
  | .named _ | .unknown =>
    match chosenRule toLowercase subject rules with
    | some rule => .resolved rule.outcome (.rule rule.id rule.version)
    | none =>
      if subject.farSide.isOwnAccount then .resolved .ownAccountMovement .asserted
      else .ambiguous (questionFor subject)

end Classification

/-! ### Recomputing history -/

/-- The classification an event already expresses. What records a fact rather than a decision has none. -/
def classificationOf (e : Event) : Option Classification :=
  match e.kind with
  | .cashTransfer _ _ target _ => some (.internalTransfer target)
  | .ownAccountMovement _ | .unresolvedOwnAccountMovement _ => some .ownAccountMovement
  | .cashIn _ | .cashOut _ => some .externalFlow
  | .refund _ => some .refund
  | .fee _ origin => some (.fee origin)
  | .income _ _ kind => some (.income kind)
  | .tax .. | .trade .. | .openingPosition .. | .openingCash .. | .statedSecuritiesValue .. | .valuation ..
  | .controlAssertion .. | .importCoverageGap .. | .corporateAction .. | .offerExercise .. => none

/-- One correction of the plan: a reversal and a replacement. -/
structure Correction where
  target : EventId
  was : Classification
  becomes : Classification
  deriving DecidableEq, Repr

/-- The correction of one effective event, when the rules read it as something else than it expresses. -/
def recomputeEvent (toLowercase : String → String) (subjects : Tree.Map EventId ClassificationSubject)
    (rules : List ClassificationRule) (e : Event) : Option Correction :=
  match subjects[e.id]?, classificationOf e with
  | some subject, some was =>
    match Classification.classify toLowercase subject rules with
    | .resolved becomes _ => if becomes = was then none else some ⟨e.id, was, becomes⟩
    | .ambiguous _ => none
  | _, _ => none

/-- The plan for recalculating history after a rule change, over the effective events. -/
def recomputePlan (toLowercase : String → String) (events : List Event)
    (subjects : Tree.Map EventId ClassificationSubject) (rules : List ClassificationRule) :
    Except CorrectionError (List Correction) := do
  let effective ← resolve events
  return effective.filterMap (recomputeEvent toLowercase subjects rules)

end Iaam
