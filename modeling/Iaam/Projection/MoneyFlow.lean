import Iaam.Category
import Iaam.Lib.Totals
import Iaam.Projection.Balances
import Iaam.Projection.Flows
import Mathlib.Order.WithBot

/-! The flow of money across and inside the contour (`projection/money_flow.rs`): what came in, what went out,
what the capital earned and what moved into assets, beside the cash these quantities claim to explain. -/

namespace Iaam

/-- The interval a report covers, inclusive at both ends. -/
structure DateWindow where
  «from» : Date
  «to» : Date
  deriving DecidableEq, Repr

def DateWindow.covers (w : DateWindow) (on : Date) : Bool := w.from ≤ on && on ≤ w.to

inductive MoneyFlowError where
  | movementWithoutDate (event : EventId)
  | overflow (quantity : String) (event : EventId)
  | aggregateOverflow (quantity : String)
  deriving DecidableEq, Repr

/-! ### Categories -/

/-- Resolves the category of one event, wherever the rules are kept. -/
abbrev CategoryIndex := Event → CategoryAssignment

/-- The index of an owner who has written no rules. -/
def noCategories : CategoryIndex := fun _ => .notDecomposed

/-! ### Ledgers -/

/-- Amounts by account and currency. -/
abbrev Ledger := Tree.Map CashKey PostedMinor

structure CategoryKey where
  category : CategoryId
  currency : CurrencyCode
  deriving DecidableEq, Repr

instance : LinearOrder CategoryKey :=
  LinearOrder.lift' (fun k => toLex (k.category, k.currency)) fun a b h => by
    cases a
    cases b
    simpa using h

/-- What produced an earning: the account, the security and the sort of income. -/
structure EarningSource where
  account : AccountId
  instrument : Option InstrumentId
  category : Option CategoryId
  deriving DecidableEq, Repr

/-- A source without an instrument or a category comes first, as `None` does. -/
def EarningSource.order (s : EarningSource) : AccountId ×ₗ (WithBot InstrumentId ×ₗ WithBot CategoryId) :=
  toLex (s.account, toLex (s.instrument, s.category))

instance : LinearOrder EarningSource :=
  LinearOrder.lift' EarningSource.order fun a b h => by
    cases a
    cases b
    simp only [EarningSource.order, toLex_inj, Prod.mk.injEq] at h
    obtain ⟨rfl, rfl, rfl⟩ := h
    rfl

structure EarningKey where
  source : EarningSource
  currency : CurrencyCode
  deriving DecidableEq, Repr

instance : LinearOrder EarningKey :=
  LinearOrder.lift' (fun k => toLex (k.source, k.currency)) fun a b h => by
    cases a
    cases b
    simpa using h

/-- Why an amount is not decomposed: no rule matched it, or it is a transfer, for which no rule is asked. -/
inductive UndecomposedCause where
  | noRuleMatched | externalTransfer
  deriving DecidableEq, Repr

def UndecomposedCause.index : UndecomposedCause → Nat
  | noRuleMatched => 0
  | externalTransfer => 1

instance : LinearOrder UndecomposedCause :=
  LinearOrder.lift' UndecomposedCause.index fun a b h => by cases a <;> cases b <;> first | rfl | cases h

structure UndecomposedKey where
  account : AccountId
  currency : CurrencyCode
  cause : UndecomposedCause
  deriving DecidableEq, Repr

instance : LinearOrder UndecomposedKey :=
  LinearOrder.lift' (fun k => toLex (k.account, toLex (k.currency, k.cause))) fun a b h => by
    cases a
    cases b
    simpa using h

/-- Adds an amount to the entry of a key, which starts at zero. -/
def post {κ : Type} [LinearOrder κ] (ledger : Tree.Map κ PostedMinor) (key : κ) (amount : PostedMinor)
    (error : MoneyFlowError) : Except MoneyFlowError (Tree.Map κ PostedMinor) :=
  match (ledger[key]?.getD .zero).checkedAdd amount with
  | some sum => .ok (ledger.insert key sum)
  | none => .error error

/-- `add`: an amount on an account. -/
def Ledger.add (ledger : Ledger) (account : AccountId) (money : Money) (quantity : String) (event : EventId) :
    Except MoneyFlowError Ledger :=
  post ledger ⟨account, money.currency⟩ money.amount (.overflow quantity event)

def negated (money : Money) (quantity : String) (event : EventId) : Except MoneyFlowError Money :=
  match money.amount.checkedNeg with
  | some amount => .ok ⟨amount, money.currency⟩
  | none => .error (.overflow quantity event)

/-- `i64::try_from` on a sum of 128 bits. -/
def narrow (amount : Int) (quantity : String) : Except MoneyFlowError PostedMinor :=
  match PostedMinor.ofInt amount with
  | some amount => .ok amount
  | none => .error (.aggregateOverflow quantity)

/-- `checked_add` on 128 bits. -/
def addWide (a b : Int) (quantity : String) : Except MoneyFlowError Int :=
  if -2 ^ 127 ≤ a + b ∧ a + b < 2 ^ 127 then .ok (a + b) else .error (.aggregateOverflow quantity)

/-- `checked_add` on the 64 bits of a count. -/
def addCount (a b : Nat) : Except MoneyFlowError Nat :=
  if a + b < 2 ^ 64 then .ok (a + b) else .error (.aggregateOverflow "not_decomposed_count")

/-- The sum of the entries of a currency that are to be included. It is a sum of 128 bits over 64-bit entries,
    which no number of entries that fits in memory can exceed. -/
def Ledger.totalFiltered (ledger : Ledger) (currency : CurrencyCode) (quantity : String) (include_ : Int → Bool) :
    Except MoneyFlowError Money := do
  let sum := ((ledger.toList.filter fun (key, amount) => key.currency = currency && include_ amount.raw).map
    fun (_, amount) => amount.raw).sum
  let amount ← narrow sum quantity
  return ⟨amount, currency⟩

def Ledger.total (ledger : Ledger) (currency : CurrencyCode) (quantity : String) : Except MoneyFlowError Money :=
  ledger.totalFiltered currency quantity fun amount => amount ≠ 0

def Ledger.totalPositive (ledger : Ledger) (currency : CurrencyCode) (quantity : String) :
    Except MoneyFlowError Money :=
  ledger.totalFiltered currency quantity fun amount => amount > 0

/-! ### The projection -/

/-- The explanatory quantities and the cash they claim to explain. `unstated` stands beside them: it is what a
    source stated and gave no direction, and no leg posts it. -/
structure MoneyFlow where
  cameIn : Ledger
  wentOut : Ledger
  earnedByCapital : Ledger
  movedIntoAssets : Ledger
  fees : Ledger
  taxes : Ledger
  internalTransfers : Ledger
  indeterminate : Ledger
  unstated : Ledger
  cashDelta : Ledger
  wentOutByCategory : Tree.Map CategoryKey PostedMinor
  earnedByCapitalBySource : Tree.Map EarningKey PostedMinor
  notDecomposedCounts : Tree.Map UndecomposedKey Nat
  notDecomposed : Tree.Map UndecomposedKey PostedMinor

def hasContourCashLeg (e : Event) (contour : ContourDefinition) : Bool :=
  e.legs.any fun leg => contour.contains leg.account && leg.cashEffect.isSome

namespace MoneyFlow

def new : MoneyFlow := ⟨∅, ∅, ∅, ∅, ∅, ∅, ∅, ∅, ∅, ∅, ∅, ∅, ∅, ∅⟩

/-- The keys an event has already been counted under. -/
abbrev Seen := Tree.Set UndecomposedKey

def addNotDecomposed (flow : MoneyFlow) (seen : Seen) (account : AccountId) (money : Money)
    (cause : UndecomposedCause) (event : EventId) : Except MoneyFlowError (MoneyFlow × Seen) := do
  let key : UndecomposedKey := ⟨account, money.currency, cause⟩
  let notDecomposed ← post flow.notDecomposed key money.amount (.overflow "not_decomposed" event)
  let flow := { flow with notDecomposed }
  if key ∈ seen then return (flow, seen)
  let count ← addCount (flow.notDecomposedCounts[key]?.getD 0) 1
  return ({ flow with notDecomposedCounts := flow.notDecomposedCounts.insert key count }, seen.insert key)

/-- What went out goes to its category, or among the rows no rule matched. -/
def decompose (flow : MoneyFlow) (seen : Seen) (account : AccountId) (amount : Money)
    (assignment : Option CategoryAssignment) (event : EventId) : Except MoneyFlowError (MoneyFlow × Seen) :=
  match assignment.bind CategoryAssignment.category? with
  | some category => do
    let wentOutByCategory ← post flow.wentOutByCategory ⟨category, amount.currency⟩ amount.amount
      (.overflow "went_out_by_category" event)
    return ({ flow with wentOutByCategory }, seen)
  | none => flow.addNotDecomposed seen account amount .noRuleMatched event

/-- The arm of `CashOut` and of `Refund`: a refund is subtracted from what went out. -/
def spend (flow : MoneyFlow) (seen : Seen) (account : AccountId) (money : Money)
    (assignment : Option CategoryAssignment) (event : EventId) : Except MoneyFlowError (MoneyFlow × Seen) := do
  let amount ← negated money "went_out" event
  let wentOut ← flow.wentOut.add account amount "went_out" event
  { flow with wentOut }.decompose seen account amount assignment event

/-- A transfer that left the contour: no rule applies to it. -/
def transferOut (flow : MoneyFlow) (seen : Seen) (account : AccountId) (money : Money) (event : EventId) :
    Except MoneyFlowError (MoneyFlow × Seen) := do
  let amount ← negated money "went_out" event
  let wentOut ← flow.wentOut.add account amount "went_out" event
  { flow with wentOut }.addNotDecomposed seen account amount .externalTransfer event

/-- The amount an earning adds, kept a second time against what produced it. -/
def earn (flow : MoneyFlow) (account : AccountId) (instrument : Option InstrumentId) (money : Money)
    (assignment : Option CategoryAssignment) (event : EventId) : Except MoneyFlowError MoneyFlow := do
  let earnedByCapital ← flow.earnedByCapital.add account money "earned_by_capital" event
  let source : EarningSource := ⟨account, instrument, assignment.bind CategoryAssignment.category?⟩
  let earnedByCapitalBySource ← post flow.earnedByCapitalBySource ⟨source, money.currency⟩ money.amount
    (.overflow "earned_by_capital_by_source" event)
  return { flow with earnedByCapital, earnedByCapitalBySource }

def arrive (flow : MoneyFlow) (account : AccountId) (money : Money) (event : EventId) :
    Except MoneyFlowError MoneyFlow := do
  let cameIn ← flow.cameIn.add account money "came_in" event
  return { flow with cameIn }

def invest (flow : MoneyFlow) (account : AccountId) (money : Money) (event : EventId) :
    Except MoneyFlowError MoneyFlow := do
  let amount ← negated money "moved_into_assets" event
  let movedIntoAssets ← flow.movedIntoAssets.add account amount "moved_into_assets" event
  return { flow with movedIntoAssets }

def chargeFee (flow : MoneyFlow) (account : AccountId) (money : Money) (event : EventId) :
    Except MoneyFlowError MoneyFlow := do
  let amount ← negated money "fees" event
  let fees ← flow.fees.add account amount "fees" event
  return { flow with fees }

def chargeTax (flow : MoneyFlow) (account : AccountId) (money : Money) (event : EventId) :
    Except MoneyFlowError MoneyFlow := do
  let amount ← negated money "taxes" event
  let taxes ← flow.taxes.add account amount "taxes" event
  return { flow with taxes }

def transferInside (flow : MoneyFlow) (account : AccountId) (money : Money) (event : EventId) :
    Except MoneyFlowError MoneyFlow := do
  let internalTransfers ← flow.internalTransfers.add account money "internal_transfers" event
  return { flow with internalTransfers }

def leaveOpen (flow : MoneyFlow) (account : AccountId) (money : Money) (event : EventId) :
    Except MoneyFlowError MoneyFlow := do
  let indeterminate ← flow.indeterminate.add account money "indeterminate" event
  return { flow with indeterminate }

/-- The quantity a leg of kind `Cash` goes to. -/
def explainCash (e : Event) (flowClass : FlowClass) (assignment : Option CategoryAssignment) (flow : MoneyFlow)
    (seen : Seen) (account : AccountId) (money : Money) : Except MoneyFlowError (MoneyFlow × Seen) :=
  let untouched := fun result : Except MoneyFlowError MoneyFlow => result.map fun flow => (flow, seen)
  match e.kind with
  | .trade _ => untouched (flow.invest account money e.id)
  | .income instrument _ _ => untouched (flow.earn account instrument money assignment e.id)
  | .cashIn _ => untouched (flow.arrive account money e.id)
  | .refund _ => flow.spend seen account money assignment e.id
  | .cashOut _ => flow.spend seen account money assignment e.id
  | .ownAccountMovement _ => untouched (flow.leaveOpen account money e.id)
  | .unresolvedOwnAccountMovement _ => .ok (flow, seen)
  | .cashTransfer .. =>
    match flowClass with
    | .internal => untouched (flow.transferInside account money e.id)
    | .externalIn .. => untouched (flow.arrive account money e.id)
    | .externalOut .. => flow.transferOut seen account money e.id
    | .indeterminate .. | .irrelevant => .ok (flow, seen)
  | .fee .. | .tax .. | .openingPosition .. | .openingCash .. | .statedSecuritiesValue .. | .valuation ..
  | .controlAssertion .. | .importCoverageGap .. => .ok (flow, seen)
  | .corporateAction _ | .offerExercise _ => untouched (flow.invest account money e.id)

/-- The quantity a leg goes to, by its kind. Principal belongs to asset events only. -/
def explain (e : Event) (flowClass : FlowClass) (assignment : Option CategoryAssignment) (flow : MoneyFlow)
    (seen : Seen) (kind : LegKind) (account : AccountId) (money : Money) :
    Except MoneyFlowError (MoneyFlow × Seen) :=
  let untouched := fun result : Except MoneyFlowError MoneyFlow => result.map fun flow => (flow, seen)
  match kind with
  | .fee => untouched (flow.chargeFee account money e.id)
  | .tax => untouched (flow.chargeTax account money e.id)
  | .cash => explainCash e flowClass assignment flow seen account money
  | .securityQuantity => .ok (flow, seen)
  | .principal =>
    match e.kind with
    | .corporateAction _ | .offerExercise _ => untouched (flow.invest account money e.id)
    | _ => .ok (flow, seen)

/-- One leg: the cash it moves on an account of the contour, and the quantity that explains it. -/
def applyLeg (e : Event) (contour : ContourDefinition) (flowClass : FlowClass)
    (assignment : Option CategoryAssignment) (acc : MoneyFlow × Seen) (leg : Leg) :
    Except MoneyFlowError (MoneyFlow × Seen) :=
  if !contour.contains leg.account then .ok acc
  else
    match leg.cashEffect with
    | none => .ok acc
    | some money => do
      let cashDelta ← acc.1.cashDelta.add leg.account money "cash_delta" e.id
      explain e flowClass assignment { acc.1 with cashDelta } acc.2 leg.kind leg.account money

/-- Whether the event is one of the report. Money that moves inside the contour must have a date. -/
def eventBelongs (e : Event) (contour : ContourDefinition) (window : DateWindow) (flowClass : FlowClass) :
    Except MoneyFlowError Bool :=
  if flowClass = .irrelevant then .ok false
  else
    match e.dates.effectiveDate with
    | none => if hasContourCashLeg e contour then .error (.movementWithoutDate e.id) else .ok false
    | some on => .ok (window.covers on)

/-- The category is asked for spending, for its reversal and for earnings. -/
def assignmentOf (categories : CategoryIndex) (e : Event) : Option CategoryAssignment :=
  match e.kind with
  | .cashOut _ | .refund _ | .income .. => some (categories e)
  | _ => none

/-- A movement without a direction posts no leg, and is read from the kind. -/
def state (flow : MoneyFlow) (e : Event) : Except MoneyFlowError MoneyFlow :=
  match e.kind with
  | .unresolvedOwnAccountMovement amount => do
    let unstated ← flow.unstated.add e.account amount "unstated" e.id
    return { flow with unstated }
  | _ => .ok flow

def apply (contour : ContourDefinition) (window : DateWindow) (categories : CategoryIndex) (flow : MoneyFlow)
    (e : Event) : Except MoneyFlowError MoneyFlow := do
  let flowClass := classify contour e
  let belongs ← eventBelongs e contour window flowClass
  if !belongs then return flow
  let flow ← flow.state e
  let (flow, _) ← e.legs.foldlM (applyLeg e contour flowClass (assignmentOf categories e)) (flow, ∅)
  return flow

/-! ### What is read off it -/

def cameInTotal (flow : MoneyFlow) (currency : CurrencyCode) : Except MoneyFlowError Money :=
  flow.cameIn.total currency "came_in"
def wentOutTotal (flow : MoneyFlow) (currency : CurrencyCode) : Except MoneyFlowError Money :=
  flow.wentOut.total currency "went_out"
def earnedByCapitalTotal (flow : MoneyFlow) (currency : CurrencyCode) : Except MoneyFlowError Money :=
  flow.earnedByCapital.total currency "earned_by_capital"
def movedIntoAssetsTotal (flow : MoneyFlow) (currency : CurrencyCode) : Except MoneyFlowError Money :=
  flow.movedIntoAssets.total currency "moved_into_assets"
def feesTotal (flow : MoneyFlow) (currency : CurrencyCode) : Except MoneyFlowError Money :=
  flow.fees.total currency "fees"
def taxesTotal (flow : MoneyFlow) (currency : CurrencyCode) : Except MoneyFlowError Money :=
  flow.taxes.total currency "taxes"
def indeterminateTotal (flow : MoneyFlow) (currency : CurrencyCode) : Except MoneyFlowError Money :=
  flow.indeterminate.total currency "indeterminate"
def unstatedTotal (flow : MoneyFlow) (currency : CurrencyCode) : Except MoneyFlowError Money :=
  flow.unstated.total currency "unstated"
def cashDeltaTotal (flow : MoneyFlow) (currency : CurrencyCode) : Except MoneyFlowError Money :=
  flow.cashDelta.total currency "cash_delta"

/-- How much moved between the accounts, from the positive entries of a signed ledger. -/
def internalTransfersTotal (flow : MoneyFlow) (currency : CurrencyCode) : Except MoneyFlowError Money :=
  flow.internalTransfers.totalPositive currency "internal_transfers"

/-- Sums the entries of a currency by group, and lists the groups that do not come to zero. -/
def breakdown {κ γ : Type} [LinearOrder κ] [LinearOrder γ] (ledger : Tree.Map κ PostedMinor) (group : κ → γ)
    (currencyOf : κ → CurrencyCode) (currency : CurrencyCode) (quantity : String) :
    Except MoneyFlowError (List (γ × Money)) := do
  let totals ← (ledger.toList.filter fun (key, _) => currencyOf key = currency).foldlM
    (fun (totals : Tree.Map γ Int) (key, amount) => do
      let sum ← addWide (totals[group key]?.getD 0) amount.raw quantity
      return totals.insert (group key) sum) ∅
  (totals.toList.filter fun (_, amount) => amount ≠ 0).mapM fun (key, amount) => do
    let amount ← narrow amount quantity
    return (key, ⟨amount, currency⟩)

def wentOutByCategoryIn (flow : MoneyFlow) (currency : CurrencyCode) :
    Except MoneyFlowError (List (CategoryId × Money)) :=
  breakdown flow.wentOutByCategory CategoryKey.category CategoryKey.currency currency "went_out_by_category"

def earnedByCapitalBySourceIn (flow : MoneyFlow) (currency : CurrencyCode) :
    Except MoneyFlowError (List (EarningSource × Money)) :=
  breakdown flow.earnedByCapitalBySource EarningKey.source EarningKey.currency currency "earned_by_capital_by_source"

/-- The number and the amount of the outflow rows without a category. -/
def notDecomposedIn (flow : MoneyFlow) (currency : CurrencyCode) : Except MoneyFlowError (Nat × Money) := do
  let count ← (flow.notDecomposedCounts.toList.filter fun (key, _) => key.currency = currency).foldlM
    (fun total (_, count) => addCount total count) 0
  let sum := ((flow.notDecomposed.toList.filter fun (key, _) => key.currency = currency).map
    fun (_, amount) => amount.raw).sum
  let amount ← narrow sum "not_decomposed"
  return (count, ⟨amount, currency⟩)

/-- What a ledger has under a key. -/
def «at» (ledger : Ledger) (key : CashKey) : Int := (ledger[key]?.map PostedMinor.raw).getD 0

/-- The cash that the explanatory quantities fail to explain, for one account. -/
def residualOf (flow : MoneyFlow) (account : AccountId) (currency : CurrencyCode) : Int :=
  let key : CashKey := ⟨account, currency⟩
  let explained := «at» flow.cameIn key - «at» flow.wentOut key + «at» flow.earnedByCapital key
    - «at» flow.movedIntoAssets key - «at» flow.fees key - «at» flow.taxes key
    + «at» flow.internalTransfers key + «at» flow.indeterminate key
  «at» flow.cashDelta key - explained

end MoneyFlow
end Iaam
