import Iaam.Lib.Search
import Iaam.Reconciliation.Check

/-! The ledger built from the journal (`build_with` of `reconciliation/mod.rs`, the exceptions of `perimeter.rs`):
the assertions are grouped by document, each group is checked, the groups raise evidence for one another, and
their statuses are merged. -/

namespace Iaam

/-! ### Exceptions of the perimeter -/

structure PerimeterExceptions where
  entries : List (AccountId × Dimension × ReconciliationException)

namespace PerimeterExceptions

def default : PerimeterExceptions := ⟨[]⟩

def add (exceptions : PerimeterExceptions) (account : AccountId) (dimension : Dimension)
    (exception : ReconciliationException) : PerimeterExceptions :=
  if (account, dimension, exception) ∈ exceptions.entries then exceptions
  else ⟨exceptions.entries ++ [(account, dimension, exception)]⟩

def covers (exceptions : PerimeterExceptions) (account : AccountId) (dimension : Dimension) :
    Option ReconciliationException :=
  (exceptions.entries.find? fun entry => entry.1 = account ∧ entry.2.1 = dimension).map fun entry => entry.2.2

end PerimeterExceptions

/-- An exception replaces a discrepancy and nothing else. -/
def applyExceptions (outcome : ClaimOutcome) (account : AccountId) (dimension : Dimension)
    (exceptions : PerimeterExceptions) : ClaimOutcome :=
  match outcome, exceptions.covers account dimension with
  | .discrepant _, some exception => .excepted exception
  | outcome, _ => outcome

def ClaimOutcome.confirms : ClaimOutcome → Bool
  | matched => true
  | discrepant _ | notComparable _ | excepted _ => false

/-! ### Groups and gaps -/

/-- Adds a claim to the group of its account, interval and channel, or opens one behind the others. -/
def addClaim (account : AccountId) (period : AssertionPeriod) (channel : SourceChannel) (claim : ControlClaim) :
    List StatementGroup → List StatementGroup
  | [] => [⟨account, period, channel, [claim]⟩]
  | group :: rest =>
    if group.account = account ∧ group.period = period ∧ group.channel = channel then
      { group with claims := group.claims ++ [claim] } :: rest
    else group :: addClaim account period channel claim rest

def Event.channel (event : Event) : SourceChannel :=
  ⟨event.provenance.source, event.provenance.parserVersion, some event.provenance.rawHash⟩

def collectGroup (groups : List StatementGroup) (event : Event) : List StatementGroup :=
  match event.kind with
  | .controlAssertion period claim => addClaim event.account period event.channel claim groups
  | _ => groups

def collectGroups (events : List Event) : List StatementGroup := events.foldl collectGroup []

def coverageGap (event : Event) : Option Taint :=
  match event.kind with
  | .importCoverageGap period dimensions refused rows =>
    some ⟨event.account, period, event.provenance.source, event.provenance.parserVersion, dimensions, refused, rows⟩
  | _ => none

def collectCoverageGaps (events : List Event) : List Taint := events.filterMap coverageGap

/-- An attempt is correlated by account, interval, source and parser, and not by document. -/
def correlatedTaints (group : StatementGroup) (gaps : List Taint) : List Taint :=
  gaps.filter fun gap => gap.account = group.account ∧ gap.period = group.period ∧
    gap.source = group.channel.source ∧ gap.parserVersion = group.channel.parserVersion

def dimensionsFromTaints (taints : List Taint) : Finset Dimension :=
  taints.foldl (fun acc taint => acc ∪ taint.dimensions) ∅

/-! ### Evidence that the journal generates -/

/-- A group with its outcomes and the gaps correlated with it. -/
abbrev CheckedGroup := StatementGroup × List ClaimCheck × List Taint

namespace CheckedGroup

def group (c : CheckedGroup) : StatementGroup := c.1
def outcomes (c : CheckedGroup) : List ClaimCheck := c.2.1
def tainted (c : CheckedGroup) : Finset Dimension := dimensionsFromTaints c.2.2

end CheckedGroup

def dimensionsOf (claims : List ControlClaim) : Finset Dimension := (claims.map ControlClaim.dimension).toFinset

def ControlClaim.isBalance : ControlClaim → Bool
  | cashBalance .. | positionQuantity .. => true
  | cashTurnover .. | feesTotal .. | incomeTotal .. | taxWithheldTotal .. => false

def ControlClaim.isFlow : ControlClaim → Bool
  | cashTurnover .. | feesTotal .. | incomeTotal .. => true
  | cashBalance .. | positionQuantity .. | taxWithheldTotal .. => false

def ControlClaim.isOpening : ControlClaim → Bool
  | cashBalance _ _ .opening | positionQuantity _ _ .opening => true
  | _ => false

/-- Separate control sections of one document agree: a balance and a flow, and nothing failed. -/
def groundFive (c : CheckedGroup) : Option Evidence :=
  if c.outcomes.isEmpty ∨ !c.outcomes.all (fun check => check.outcome.confirms) then none
  else if !c.group.claims.any ControlClaim.isBalance ∨ !c.group.claims.any ControlClaim.isFlow then none
  else
    Evidence.fromMatch .separateSectionsAgree c.group.channel c.group.channel (dimensionsOf c.group.claims \ c.tainted)

/-- The opening balances of a statement that matched confirm the statement before it. -/
def groundOne (checked : List CheckedGroup) (c : CheckedGroup) : Option EvidenceItem := do
  let openings := c.outcomes.filter fun check => check.outcome.confirms && check.claim.isOpening
  let openingMatched := dimensionsOf (openings.map ClaimCheck.claim)
  if openingMatched = ∅ then none
  else
    -- `max_by_key` keeps the last of the latest ones.
    let prior ← Search.maxByKey (fun other : CheckedGroup => other.group.period.to)
      (checked.filter fun other =>
        other.group.account = c.group.account ∧ other.group.period.to < c.group.period.from)
    let evidence ← Evidence.fromMatch .openingMatchesPriorClosing c.group.channel prior.group.channel
      ((openingMatched \ c.tainted) \ prior.tainted)
    return ⟨c.group.account, prior.group.period, evidence⟩

/-- The closing assertion of one statement is the opening assertion of another. -/
def continuous : ControlClaim → ControlClaim → Bool
  | .cashBalance leftCurrency left .closing, .cashBalance rightCurrency right .opening =>
    leftCurrency = rightCurrency && left = right
  | .positionQuantity leftInstrument left .closing, .positionQuantity rightInstrument right .opening =>
    leftInstrument = rightInstrument && left = right
  | _, _ => false

def continuity (earlier later : CheckedGroup) : Option EvidenceItem :=
  if earlier.group.account ≠ later.group.account ∨ later.group.period.from ≤ earlier.group.period.to then none
  else
    let dimensions := dimensionsOf (earlier.group.claims.filter fun closing =>
      later.group.claims.any (continuous closing))
    (Evidence.fromMatch .continuityBetweenStatements later.group.channel earlier.group.channel
      ((dimensions \ earlier.tainted) \ later.tainted)).map
      fun evidence => ⟨earlier.group.account, earlier.group.period, evidence⟩

def groundTwo (checked : List CheckedGroup) : List EvidenceItem :=
  checked.flatMap fun earlier => checked.filterMap (continuity earlier)

/-- The dimensions in which something matched and nothing was discrepant. -/
def confirmedDimensions (c : CheckedGroup) : Finset Dimension :=
  let of (p : ClaimOutcome → Bool) := dimensionsOf ((c.outcomes.filter fun check => p check.outcome).map ClaimCheck.claim)
  (of ClaimOutcome.confirms \ of ClaimOutcome.isDiscrepant) \ c.tainted

def agreement (left right : CheckedGroup) : Option EvidenceItem :=
  if left.group.account ≠ right.group.account ∨ left.group.period ≠ right.group.period ∨
      !left.group.channel.isIndependentOf right.group.channel then none
  else
    (Evidence.fromMatch .brokerApiAgreesWithStatement right.group.channel left.group.channel
      (confirmedDimensions left ∩ confirmedDimensions right)).map
      fun evidence => ⟨left.group.account, left.group.period, evidence⟩

/-- Two independent channels over one interval. Each pair is taken once. -/
def groundThree : List CheckedGroup → List EvidenceItem
  | [] => []
  | left :: rest => rest.filterMap (agreement left) ++ groundThree rest

def generatedEvidence (checked : List CheckedGroup) : List EvidenceItem :=
  checked.flatMap (fun c =>
    ((groundFive c).map fun evidence => (⟨c.group.account, c.group.period, evidence⟩ : EvidenceItem)).toList ++
      (groundOne checked c).toList) ++ groundTwo checked ++ groundThree checked

/-! ### The ledger -/

namespace ReconciliationLedger

def checkOf (exceptions : PerimeterExceptions) (account : AccountId) (observed : ObservedTotals) (claim : ControlClaim) :
    ClaimCheck where
  claim
  outcome := applyExceptions (checkClaim claim observed) account claim.dimension exceptions
  basis := observationBasis claim observed

/-- Step 1: a group against the projection. -/
def checkGroup (effective : List Event) (exceptions : PerimeterExceptions) (gaps : List Taint) (group : StatementGroup) :
    Except ObserveError CheckedGroup := do
  let observed ← observe effective group.account group.period
  return (group, group.claims.map (checkOf exceptions group.account observed), correlatedTaints group gaps)

/-- The steps of `build_with` over its groups: checks, evidence, statuses. -/
def buildGroups (effective : List Event) (exceptions : PerimeterExceptions) (gaps : List Taint)
    (groups : List StatementGroup) : Except ObserveError ReconciliationLedger := do
  let checked ← groups.mapM (checkGroup effective exceptions gaps)
  return .ofChecked checked (generatedEvidence checked) gaps

def buildWith (events : List Event) (exceptions : PerimeterExceptions) : Except ObserveError ReconciliationLedger := do
  let effective ← (resolve events).mapError .correction
  buildGroups effective exceptions (collectCoverageGaps effective) (collectGroups effective)

def build (events : List Event) : Except ObserveError ReconciliationLedger := buildWith events .default

end ReconciliationLedger
end Iaam
