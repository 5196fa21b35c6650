import Iaam.Cashflow
import Iaam.DataQuality
import Iaam.Lib.Pairs

/-! Scheduled payments against the facts of the journal (`rules/posting_match.rs`). -/

namespace Iaam
open Cashflow

/-- The date so many days later, or the last date there is. -/
def Date.saturatingAddDays (d : Date) (days : Nat) : Date := (d.checkedAddDays days).getD .max

inductive Verdict where
  | notReceived
  | unverifiable (reason : Returns.UnverifiableReason)
  | silent
  deriving DecidableEq, Repr

def factMatches (expected : ScheduledPosting) (fact : ReceivedPosting) (deadline : Date) : Bool :=
  decide (fact.kind = expected.kind) && decide (expected.date ≤ fact.date) && decide (fact.date ≤ deadline)

/-- The first fact that is not used and closes the payment. -/
def findFact (available : List ReceivedPosting) (used : List Bool) (expected : ScheduledPosting) (deadline : Date) :
    Option Nat :=
  Pairs.firstFree (fun fact => factMatches expected fact deadline) available used

/-- Facts by date; those of one date by event. -/
def inOrder (facts : List ReceivedPosting) : List ReceivedPosting :=
  facts.insertionSort fun l r => toLex (l.date, l.event) ≤ toLex (r.date, r.event)

/-! ### The first version -/

structure PostingMatchV1 where
  windowDays : Nat
  deriving DecidableEq, Repr

namespace PostingMatchV1

def new : PostingMatchV1 := ⟨21⟩

/-- The time that a payment may take is over. -/
def isDue (rule : PostingMatchV1) (scheduled : ScheduledPosting) (asOf : Date) : Bool :=
  scheduled.date.saturatingAddDays rule.windowDays ≤ asOf

/-- A payment that is not due is passed over and uses no fact. -/
def closePayment (rule : PostingMatchV1) (available : List ReceivedPosting) (asOf : Date)
    (state : List Bool × List ScheduledPosting) (expected : ScheduledPosting) : List Bool × List ScheduledPosting :=
  if !rule.isDue expected asOf then state
  else
    match findFact available state.1 expected (expected.date.saturatingAddDays rule.windowDays) with
    | some index => (state.1.set index true, state.2)
    | none => (state.1, state.2 ++ [expected])

/-- The payments for which there is no fact. Each fact is used for one payment. -/
def unreceived (rule : PostingMatchV1) (scheduled : List ScheduledPosting) (facts : List ReceivedPosting)
    (asOf : Date) : List ScheduledPosting :=
  let plan := scheduled.insertionSort fun l r => l.key ≤ r.key
  let available := inOrder facts
  (plan.foldl (rule.closePayment available asOf) (List.replicate available.length false, [])).2

end PostingMatchV1

/-! ### The second version -/

structure PostingMatchV2 where
  windowDays : Nat
  deriving DecidableEq, Repr

namespace PostingMatchV2

def new : PostingMatchV2 := ⟨21⟩

def isDue (rule : PostingMatchV2) (scheduled : ScheduledPosting) (asOf : Date) : Bool :=
  scheduled.date.saturatingAddDays rule.windowDays ≤ asOf

/-- Facts are given out before anything is judged: a payment that cannot be judged uses its fact as well. -/
def giveFact (rule : PostingMatchV2) (available : List ReceivedPosting) (state : List Bool × List Bool)
    (item : (ScheduledPosting × Ownership) × Nat) : List Bool × List Bool :=
  match findFact available state.1 item.1.1 (item.1.1.date.saturatingAddDays rule.windowDays) with
  | some index => (state.1.set index true, state.2.set item.2 true)
  | none => state

/-- The verdict on one payment, with the facts given out. -/
def judge (posting : ScheduledPosting) (ownership : Ownership) (factFound : Bool) : Verdict :=
  if posting.entitlement.isNone then .unverifiable .entitlementDateUnknown
  else if ownership = .unknown then .unverifiable .ownershipUnknown
  else if ownership = .notOwned ∨ factFound then .silent
  else .notReceived

def judgeAll (rule : PostingMatchV2) (postings : List (ScheduledPosting × Ownership)) (facts : List ReceivedPosting) :
    List Verdict :=
  let ordered := postings.zipIdx.insertionSort fun l r => l.1.1.key ≤ r.1.1.key
  let available := inOrder facts
  let marks := ordered.foldl (rule.giveFact available)
    (List.replicate available.length false, List.replicate postings.length false)
  postings.zipIdx.map fun item => judge item.1.1 item.1.2 (marks.2.getD item.2 false)

end PostingMatchV2
end Iaam
