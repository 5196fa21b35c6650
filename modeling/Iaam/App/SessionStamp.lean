import Iaam.App.SessionCommit

/-! The stamp of a plan (`fingerprint` of `scenarios/import_session.rs`): a digest of what every section of the plan says. A
caller that commits under a stamp is refused when the plan of that moment says something else. -/

namespace Iaam
namespace SessionPlan
open SessionReading

/-! ### What the source named -/

structure SourceInventory where
  source : Option SourceId
  «import» : Option ImportId
  documents : List String
  rows : Nat
  period : Option (Date × Date)
  accounts : List AccountId
  deriving DecidableEq, Repr

/-- The document a row names, when it names one. -/
def documentOf (read : ReadRow) : Option String :=
  match read.intake with
  | some (.observed row _) => row.identity.document
  | some (.concluded _) | none => none

/-- The day of the event of a row; of a row that is settled without one, the day it states. -/
def dayOf (read : ReadRow) : Option Date :=
  match read.candidate, read.settled with
  | some (.ok e), _ => some e.order.date
  | none, some _ => read.statedDay
  | some (.error _), _ | none, none => none

/-- The first and the last day. -/
def spanOf (days : List Date) : Option (Date × Date) := do
  let first ← days.min?
  let last ← days.max?
  return (first, last)

def inventory (session : SessionView) (rows : List ReadRow) : SourceInventory where
  source := session.source
  «import» := session.import
  documents := (rows.filterMap documentOf).eraseDups
  rows := rows.length
  period := spanOf (rows.filterMap dayOf)
  accounts := (rows.filterMap ReadRow.account).eraseDups

/-! ### What its accounts resolved to -/

/-- A name that a document printed and that no account answered to when it was read. -/
structure UnresolvedAccountView where
  session : ImportSessionId
  documentHash : String
  printed : String
  deriving DecidableEq, Repr

structure AccountResolution where
  resolved : List AccountId
  missing : List AccountId
  conflicting : List String
  unrecognised : List String
  deriving DecidableEq, Repr

def accountResolution (words : Words) (resolver : Resolver) (rows : List ReadRow)
    (recorded : List UnresolvedAccountView) : AccountResolution :=
  let known (account : AccountId) : Bool := resolver.accounts.any fun held => held.id = account
  let matched (name : String) (on : Option Date) : Nat :=
    (candidates words (resolver.accounts.map entryFor) name on).length
  let conflict (read : ReadRow) : Option String :=
    match read.intake with
    | some (.observed row _) => row.counterpartyName.filter fun name => 1 < matched name row.dates.effectiveDate
    | some (.concluded _) | none => none
  { resolved := ((rows.filterMap ReadRow.account).filter known).eraseDups
    missing := ((rows.filterMap ReadRow.account).filter fun account => !known account).eraseDups
    conflicting := (rows.filterMap conflict).eraseDups
    unrecognised := ((recorded.filter fun name => matched name.printed none ≠ 1).map
      UnresolvedAccountView.printed).eraseDups }

/-! ### Where they stand -/

/-- The accounts of a contour. -/
structure ContourView where
  accounts : List AccountId
  deriving DecidableEq, Repr

structure AccountScopeExclusionView where
  account : AccountId
  deriving DecidableEq, Repr

inductive AccountScope where
  | inside | outside | undecided
  deriving DecidableEq, Repr

def accountScope (account : AccountId) (contours : List ContourView) (exclusions : List AccountScopeExclusionView) :
    AccountScope :=
  if contours.any fun contour => account ∈ contour.accounts then .inside
  else if exclusions.any fun exclusion => exclusion.account = account then .outside
  else .undecided

structure ScopeAssessment where
  inContour : List AccountId
  explicitlyOutside : List AccountId
  awaitingDisposition : List AccountId
  deriving DecidableEq, Repr

def scopeAssessment (accounts : List AccountId) (contours : List ContourView)
    (exclusions : List AccountScopeExclusionView) : ScopeAssessment :=
  let «at» (scope : AccountScope) : List AccountId :=
    accounts.filter fun account => accountScope account contours exclusions = scope
  ⟨«at» .inside, «at» .outside, «at» .undecided⟩

/-! ### Under what identity the facts are written -/

structure PlannedOrigin where
  account : AccountId
  source : SourceId
  «import» : Option ImportId
  deriving DecidableEq, Repr

/-- One for each account that a fact is shown on, in the order of the accounts. -/
def factOrigins (env : Environment) (owner : OwnerId) (session : SessionView) (facts : List PlannedFact) :
    List PlannedOrigin :=
  ((facts.map PlannedFact.account).eraseDups.insertionSort (· ≤ ·)).map fun account =>
    let origin := sessionOrigin env owner session account
    ⟨account, origin.source, origin.import⟩

/-! ### The stamp -/

/-- What a plan is read against, beside the session and the journal. `offers` are the accounts that an answer may name and the
    groups of the questions, which are published with open questions alone. -/
structure Surroundings where
  resolver : Resolver
  unresolved : List UnresolvedAccountView
  contours : List ContourView
  exclusions : List AccountScopeExclusionView
  offers : PlannedSession → List String

/-- A line of the text that is digested. -/
inductive StampLine where
  | session (id : ImportSessionId) (state : ImportSession.SessionState)
  | inventory (content : SourceInventory)
  | accounts (resolved missing : List AccountId) (conflicting : List String)
  | accountsUnrecognised (names : List String)
  | scope (content : ScopeAssessment)
  | resolved (fact : PlannedFact)
  | «open» (question : OpenQuestion)
  | offer (text : String)
  | candidate (outgoing incoming : LegOrigin) (evidence : PairingEvidence)
  | unmatched (origin : LegOrigin)
  | fact (fact : PlannedFact)
  | duplicate (fact : PlannedFact)
  | resembles (row : ResemblingRow)
  | retained (row : RetainedRow)
  | settled (row : SettledRow)
  | factOrigin (origin : PlannedOrigin)
  | factTotal (total : Batch.BatchTotal)
  | duplicateTotal (total : Batch.BatchTotal)
  | control (comparison : Batch.ControlComparison)
  | readiness (readiness : Readiness)
  deriving DecidableEq

/-- The text of a plan, line by line. -/
def stampLines (env : Environment) (owner : OwnerId) (around : Surroundings) (plan : PlannedSession) : List StampLine :=
  let inventory := inventory plan.session plan.rows
  let recorded := around.unresolved.filter fun name =>
    name.session = plan.session.id || inventory.documents.contains name.documentHash
  let accounts := accountResolution env.words around.resolver plan.rows recorded
  let scope := scopeAssessment inventory.accounts around.contours around.exclusions
  let accounting := plan.delta.accounting
  [StampLine.session plan.session.id plan.session.state, .inventory inventory,
    .accounts accounts.resolved accounts.missing accounts.conflicting, .accountsUnrecognised accounts.unrecognised,
    .scope scope] ++
  (accounting.facts ++ accounting.duplicates).map StampLine.resolved ++
  plan.openQuestions.map StampLine.open ++
  (if plan.openQuestions = [] then [] else (around.offers plan).map StampLine.offer) ++
  (plan.matching.candidates.map fun candidate =>
    StampLine.candidate candidate.outgoing.origin candidate.incoming.origin candidate.evidence) ++
  (plan.matching.unmatched.map fun leg => StampLine.unmatched leg.origin) ++
  accounting.facts.map StampLine.fact ++
  accounting.duplicates.map StampLine.duplicate ++
  accounting.resembling.map StampLine.resembles ++
  accounting.retained.map StampLine.retained ++
  accounting.settledWithoutFact.map StampLine.settled ++
  (factOrigins env owner plan.session accounting.facts).map StampLine.factOrigin ++
  plan.delta.factTotals.map StampLine.factTotal ++
  plan.delta.duplicateTotals.map StampLine.duplicateTotal ++
  plan.comparisons.map StampLine.control ++
  [StampLine.readiness plan.readiness]

/-- `digest` is the hexadecimal digest of the text. -/
def fingerprint (digest : List StampLine → String) (env : Environment) (owner : OwnerId) (around : Surroundings)
    (plan : PlannedSession) : String := digest (stampLines env owner around plan)

end SessionPlan

/-- A commit whose plan is stamped with the digest of what it says. -/
def SessionCommit.Context.withFingerprint (context : Context) (digest : List SessionPlan.StampLine → String) (owner : OwnerId)
    (around : SessionPlan.Surroundings) : Context :=
  { context with stamp := SessionPlan.fingerprint digest context.env owner around }

end Iaam
