import Iaam.Lib.Runs
import Iaam.Projection.MoneyFlow
import Iaam.Event.Declared

/-! What one leg does to the money flow. It adds to the cash of its account, and it adds the same amount,
signed as the quantity is, to at most one explanatory quantity; what went out and what was earned is kept a
second time in the breakdowns. Every identity of the report follows from this. -/

namespace Iaam
namespace MoneyFlow
open Outcome

/-! ### Posting to a ledger -/

/-- The ledger has gained an amount under a key. -/
def Added {κ : Type} [LinearOrder κ] (ledger ledger' : Tree.Map κ PostedMinor) (key : κ) (minor : Int) : Prop :=
  ∃ sum : PostedMinor, sum.raw = (ledger[key]?.getD .zero).raw + minor ∧ ledger' = ledger.insert key sum

/-- The sum of the entries whose key is chosen. -/
def sumOver {κ : Type} [LinearOrder κ] (ledger : Tree.Map κ PostedMinor) (p : κ → Prop) [DecidablePred p] : Int :=
  Tree.total ledger fun key amount => if p key then amount.raw else 0

section
variable {κ : Type} [LinearOrder κ] {ledger ledger' : Tree.Map κ PostedMinor} {key : κ} {minor : Int}

theorem post_ok {amount : PostedMinor} {error : MoneyFlowError} (h : post ledger key amount error = .ok ledger') :
    Added ledger ledger' key amount.raw := by
  unfold post at h
  cases hsum : (ledger[key]?.getD .zero).checkedAdd amount with
  | none =>
    rw [hsum] at h
    cases h
  | some sum =>
    rw [hsum] at h
    cases h
    exact ⟨sum, PostedMinor.ofInt_eq_some.mp hsum, rfl⟩

theorem Added.sumOver (h : Added ledger ledger' key minor) (p : κ → Prop) [DecidablePred p] :
    sumOver ledger' p = MoneyFlow.sumOver ledger p + if p key then minor else 0 := by
  obtain ⟨sum, hsum, rfl⟩ := h
  unfold MoneyFlow.sumOver
  rw [Tree.total_insert]
  unfold Tree.share
  by_cases hp : p key
  · rw [if_pos hp, if_pos hp, hsum]
    cases ledger[key]? <;> simp [hp]
  · cases ledger[key]? <;> simp [hp]

end

theorem Added.at {ledger ledger' : Ledger} {key : CashKey} {minor : Int} (h : Added ledger ledger' key minor)
    (k : CashKey) : MoneyFlow.at ledger' k = MoneyFlow.at ledger k + if key = k then minor else 0 := by
  obtain ⟨sum, hsum, rfl⟩ := h
  unfold MoneyFlow.at
  rw [Tree.get_insert]
  by_cases hk : key = k
  · subst hk
    rw [if_pos rfl, if_pos rfl, Option.map_some, Option.getD_some, hsum]
    cases ledger[key]? <;> rfl
  · simp [hk]

theorem negated_ok {money amount : Money} {quantity : String} {event : EventId}
    (h : negated money quantity event = .ok amount) :
    amount.currency = money.currency ∧ amount.amount.raw = -money.amount.raw := by
  unfold negated at h
  cases hneg : money.amount.checkedNeg with
  | none =>
    rw [hneg] at h
    cases h
  | some a =>
    rw [hneg] at h
    cases h
    exact ⟨rfl, PostedMinor.ofInt_eq_some.mp hneg⟩

/-! ### The explanatory quantities -/

/-- The quantities that explain a movement of cash. -/
inductive Quantity where
  | cameIn | wentOut | earned | assets | fees | taxes | internal | indeterminate
  deriving DecidableEq

def ledgerOf (flow : MoneyFlow) : Quantity → Ledger
  | .cameIn => flow.cameIn
  | .wentOut => flow.wentOut
  | .earned => flow.earnedByCapital
  | .assets => flow.movedIntoAssets
  | .fees => flow.fees
  | .taxes => flow.taxes
  | .internal => flow.internalTransfers
  | .indeterminate => flow.indeterminate

/-- The flow with the ledger of a quantity replaced. -/
def write (flow : MoneyFlow) (q : Quantity) (ledger : Ledger) : MoneyFlow :=
  match q with
  | .cameIn => { flow with cameIn := ledger }
  | .wentOut => { flow with wentOut := ledger }
  | .earned => { flow with earnedByCapital := ledger }
  | .assets => { flow with movedIntoAssets := ledger }
  | .fees => { flow with fees := ledger }
  | .taxes => { flow with taxes := ledger }
  | .internal => { flow with internalTransfers := ledger }
  | .indeterminate => { flow with indeterminate := ledger }

/-- What goes out is kept positive. -/
def Quantity.signed : Quantity → Int → Int
  | cameIn, minor | earned, minor | internal, minor | indeterminate, minor => minor
  | wentOut, minor | assets, minor | fees, minor | taxes, minor => -minor

/-- The quantity that explains a leg of an event, if one does. -/
def quantityOf (kind : EventKind) (flowClass : FlowClass) : LegKind → Option Quantity
  | .fee => some .fees
  | .tax => some .taxes
  | .securityQuantity => none
  | .principal =>
    match kind with
    | .corporateAction _ | .offerExercise _ => some .assets
    | _ => none
  | .cash =>
    match kind with
    | .trade _ | .corporateAction _ | .offerExercise _ => some .assets
    | .income .. => some .earned
    | .cashIn _ => some .cameIn
    | .refund _ | .cashOut _ => some .wentOut
    | .ownAccountMovement _ => some .indeterminate
    | .cashTransfer .. =>
      match flowClass with
      | .internal => some .internal
      | .externalIn .. => some .cameIn
      | .externalOut .. => some .wentOut
      | .indeterminate .. | .irrelevant => none
    | .unresolvedOwnAccountMovement _ | .fee .. | .tax .. | .openingPosition .. | .openingCash ..
    | .statedSecuritiesValue .. | .valuation .. | .controlAssertion .. | .importCoverageGap .. => none

/-- The outflow as the breakdown has it: what has a category and what has none. -/
def decomposedIn (flow : MoneyFlow) (c : CurrencyCode) : Int :=
  sumOver flow.wentOutByCategory (·.currency = c) + sumOver flow.notDecomposed (·.currency = c)

def sourcedIn (flow : MoneyFlow) (c : CurrencyCode) : Int := sumOver flow.earnedByCapitalBySource (·.currency = c)

/-- An amount on a key has been explained by a quantity, and nothing else has changed. -/
structure Explained (flow flow' : MoneyFlow) (quantity : Option Quantity) (key : CashKey) (minor : Int) : Prop where
  posted : ∀ q, quantity = some q → Added (flow.ledgerOf q) (flow'.ledgerOf q) key (q.signed minor)
  kept : ∀ q, quantity ≠ some q → flow'.ledgerOf q = flow.ledgerOf q
  delta : flow'.cashDelta = flow.cashDelta
  outflow : ∀ c, flow'.decomposedIn c =
    flow.decomposedIn c + if quantity = some .wentOut ∧ key.currency = c then -minor else 0
  sources : ∀ c, flow'.sourcedIn c =
    flow.sourcedIn c + if quantity = some .earned ∧ key.currency = c then minor else 0

namespace Explained
variable {flow flow' : MoneyFlow} {key : CashKey} {minor : Int}

theorem none (flow : MoneyFlow) (key : CashKey) (minor : Int) : Explained flow flow none key minor where
  posted := by simp
  kept := fun _ _ => rfl
  delta := rfl
  outflow := by simp
  sources := by simp

/-- A quantity without a breakdown: its ledger is written, and every other field stays. -/
theorem write (q : Quantity) {ledger : Ledger} (hq : q ≠ .wentOut ∧ q ≠ .earned)
    (hadd : Added (flow.ledgerOf q) ledger key (q.signed minor)) :
    Explained flow (flow.write q ledger) (some q) key minor where
  posted := fun r hr => by
    cases hr
    cases q <;> exact hadd
  kept := fun r hr => by cases q <;> cases r <;> first | rfl | exact absurd rfl hr
  delta := by cases q <;> rfl
  outflow := fun c => by cases q <;> simp_all [decomposedIn, MoneyFlow.write]
  sources := fun c => by cases q <;> simp_all [sourcedIn, MoneyFlow.write]

end Explained

theorem Ledger.add_ok {ledger ledger' : Ledger} {account : AccountId} {money : Money} {quantity : String}
    {event : EventId} (h : ledger.add account money quantity event = .ok ledger') :
    Added ledger ledger' ⟨account, money.currency⟩ money.amount.raw := post_ok h

section
variable {flow flow' : MoneyFlow} {seen seen' : Seen} {account : AccountId} {money : Money} {event : EventId}

theorem arrive_ok (h : flow.arrive account money event = .ok flow') :
    Explained flow flow' (some .cameIn) ⟨account, money.currency⟩ money.amount.raw := by
  obtain ⟨ledger, hadd, h⟩ := bind_ok.mp h
  cases h
  exact .write .cameIn (by simp) (Ledger.add_ok hadd)

theorem transferInside_ok (h : flow.transferInside account money event = .ok flow') :
    Explained flow flow' (some .internal) ⟨account, money.currency⟩ money.amount.raw := by
  obtain ⟨ledger, hadd, h⟩ := bind_ok.mp h
  cases h
  exact .write .internal (by simp) (Ledger.add_ok hadd)

theorem leaveOpen_ok (h : flow.leaveOpen account money event = .ok flow') :
    Explained flow flow' (some .indeterminate) ⟨account, money.currency⟩ money.amount.raw := by
  obtain ⟨ledger, hadd, h⟩ := bind_ok.mp h
  cases h
  exact .write .indeterminate (by simp) (Ledger.add_ok hadd)

/-- A posting of the negated amount, under the key of the amount. -/
theorem add_negated_ok {ledger ledger' : Ledger} {amount : Money} {quantity quantity' : String}
    (hneg : negated money quantity event = .ok amount) (hadd : ledger.add account amount quantity' event = .ok ledger') :
    Added ledger ledger' ⟨account, money.currency⟩ (-money.amount.raw) := by
  obtain ⟨hcur, hraw⟩ := negated_ok hneg
  have hadded := Ledger.add_ok hadd
  rwa [hcur, hraw] at hadded

theorem invest_ok (h : flow.invest account money event = .ok flow') :
    Explained flow flow' (some .assets) ⟨account, money.currency⟩ money.amount.raw := by
  obtain ⟨amount, hneg, h⟩ := bind_ok.mp h
  obtain ⟨ledger, hadd, h⟩ := bind_ok.mp h
  cases h
  exact .write .assets (by simp) (add_negated_ok hneg hadd)

theorem chargeFee_ok (h : flow.chargeFee account money event = .ok flow') :
    Explained flow flow' (some .fees) ⟨account, money.currency⟩ money.amount.raw := by
  obtain ⟨amount, hneg, h⟩ := bind_ok.mp h
  obtain ⟨ledger, hadd, h⟩ := bind_ok.mp h
  cases h
  exact .write .fees (by simp) (add_negated_ok hneg hadd)

theorem chargeTax_ok (h : flow.chargeTax account money event = .ok flow') :
    Explained flow flow' (some .taxes) ⟨account, money.currency⟩ money.amount.raw := by
  obtain ⟨amount, hneg, h⟩ := bind_ok.mp h
  obtain ⟨ledger, hadd, h⟩ := bind_ok.mp h
  cases h
  exact .write .taxes (by simp) (add_negated_ok hneg hadd)

theorem earn_ok {instrument : Option InstrumentId} {assignment : Option CategoryAssignment}
    (h : flow.earn account instrument money assignment event = .ok flow') :
    Explained flow flow' (some .earned) ⟨account, money.currency⟩ money.amount.raw := by
  obtain ⟨ledger, hadd, h⟩ := bind_ok.mp h
  obtain ⟨sources, hsource, h⟩ := bind_ok.mp h
  cases h
  have hsum := fun c => (post_ok hsource).sumOver (·.currency = c)
  exact {
    posted := fun q hq => by
      cases hq
      exact Ledger.add_ok hadd
    kept := fun q hq => by cases q <;> first | rfl | exact absurd rfl hq
    delta := rfl
    outflow := fun c => by simp [decomposedIn]
    sources := fun c => by
      unfold sourcedIn
      rw [hsum c]
      simp }

theorem map_fst_ok {result : Except MoneyFlowError MoneyFlow}
    (h : result.map (fun flow => (flow, seen)) = .ok (flow', seen')) : result = .ok flow' := by
  cases result with
  | error e => cases h
  | ok flow =>
    cases h
    rfl

/-! ### What went out -/

/-- The breakdown of the outflow has gained an amount in a currency, and nothing else has changed. -/
structure Decomposed (flow flow' : MoneyFlow) (currency : CurrencyCode) (minor : Int) : Prop where
  kept : ∀ q, flow'.ledgerOf q = flow.ledgerOf q
  delta : flow'.cashDelta = flow.cashDelta
  outflow : ∀ c, flow'.decomposedIn c = flow.decomposedIn c + if currency = c then minor else 0
  sources : flow'.earnedByCapitalBySource = flow.earnedByCapitalBySource

theorem addNotDecomposed_ok {cause : UndecomposedCause}
    (h : flow.addNotDecomposed seen account money cause event = .ok (flow', seen')) :
    Decomposed flow flow' money.currency money.amount.raw := by
  obtain ⟨ledger, hadd, h⟩ := bind_ok.mp h
  have hsum := fun c => (post_ok hadd).sumOver (·.currency = c)
  have hflow : Decomposed flow { flow with notDecomposed := ledger } money.currency money.amount.raw := {
    kept := fun q => by cases q <;> rfl
    delta := rfl
    outflow := fun c => by
      unfold decomposedIn
      rw [hsum c, add_assoc]
    sources := rfl }
  dsimp only at h
  split at h
  · cases h
    exact hflow
  · obtain ⟨count, -, h⟩ := bind_ok.mp h
    cases h
    exact { kept := fun q => by cases q <;> rfl, delta := rfl, outflow := hflow.outflow, sources := rfl }

theorem decompose_ok {assignment : Option CategoryAssignment}
    (h : flow.decompose seen account money assignment event = .ok (flow', seen')) :
    Decomposed flow flow' money.currency money.amount.raw := by
  unfold decompose at h
  split at h
  · next category _ =>
    obtain ⟨ledger, hadd, h⟩ := bind_ok.mp h
    cases h
    have hsum := fun c => (post_ok hadd).sumOver (·.currency = c)
    exact {
      kept := fun q => by cases q <;> rfl
      delta := rfl
      outflow := fun c => by
        unfold decomposedIn
        rw [hsum c, add_right_comm]
      sources := rfl }
  · exact addNotDecomposed_ok h

/-- An outflow that is posted and then decomposed is explained. -/
theorem Decomposed.explained {ledger : Ledger} {key : CashKey} {minor : Int}
    (hadd : Added flow.wentOut ledger key (-minor))
    (h : Decomposed { flow with wentOut := ledger } flow' key.currency (-minor)) :
    Explained flow flow' (some .wentOut) key minor where
  posted := fun q hq => by
    cases hq
    rw [h.kept]
    exact hadd
  kept := fun q hq => by
    rw [h.kept]
    cases q <;> first | rfl | exact absurd rfl hq
  delta := h.delta
  outflow := fun c => by
    rw [h.outflow]
    simp [decomposedIn]
  sources := fun c => by
    unfold sourcedIn
    rw [h.sources]
    simp

theorem spend_ok {assignment : Option CategoryAssignment}
    (h : flow.spend seen account money assignment event = .ok (flow', seen')) :
    Explained flow flow' (some .wentOut) ⟨account, money.currency⟩ money.amount.raw := by
  obtain ⟨amount, hneg, h⟩ := bind_ok.mp h
  obtain ⟨ledger, hadd, h⟩ := bind_ok.mp h
  have hdec := decompose_ok h
  obtain ⟨hcur, hraw⟩ := negated_ok hneg
  rw [hcur, hraw] at hdec
  exact Decomposed.explained (add_negated_ok hneg hadd) hdec

theorem transferOut_ok (h : flow.transferOut seen account money event = .ok (flow', seen')) :
    Explained flow flow' (some .wentOut) ⟨account, money.currency⟩ money.amount.raw := by
  obtain ⟨amount, hneg, h⟩ := bind_ok.mp h
  obtain ⟨ledger, hadd, h⟩ := bind_ok.mp h
  have hdec := addNotDecomposed_ok h
  obtain ⟨hcur, hraw⟩ := negated_ok hneg
  rw [hcur, hraw] at hdec
  exact Decomposed.explained (add_negated_ok hneg hadd) hdec

theorem explainCash_ok {e : Event} {flowClass : FlowClass} {assignment : Option CategoryAssignment}
    (h : explainCash e flowClass assignment flow seen account money = .ok (flow', seen')) :
    Explained flow flow' (quantityOf e.kind flowClass .cash) ⟨account, money.currency⟩ money.amount.raw := by
  unfold explainCash at h
  cases hk : e.kind with
  | trade _ =>
    rw [hk] at h
    exact invest_ok (map_fst_ok h)
  | income _ _ _ =>
    rw [hk] at h
    exact earn_ok (map_fst_ok h)
  | cashIn _ =>
    rw [hk] at h
    exact arrive_ok (map_fst_ok h)
  | refund _ =>
    rw [hk] at h
    exact spend_ok h
  | cashOut _ =>
    rw [hk] at h
    exact spend_ok h
  | ownAccountMovement _ =>
    rw [hk] at h
    exact leaveOpen_ok (map_fst_ok h)
  | cashTransfer _ _ _ _ =>
    rw [hk] at h
    cases flowClass with
    | internal => exact transferInside_ok (map_fst_ok h)
    | externalIn _ _ => exact arrive_ok (map_fst_ok h)
    | externalOut _ _ => exact transferOut_ok h
    | indeterminate _ _ =>
      cases h
      exact .none _ _ _
    | irrelevant =>
      cases h
      exact .none _ _ _
  | corporateAction _ =>
    rw [hk] at h
    exact invest_ok (map_fst_ok h)
  | offerExercise _ =>
    rw [hk] at h
    exact invest_ok (map_fst_ok h)
  | _ =>
    rw [hk] at h
    cases h
    exact .none _ _ _

theorem explain_ok {e : Event} {flowClass : FlowClass} {assignment : Option CategoryAssignment} {kind : LegKind}
    (h : explain e flowClass assignment flow seen kind account money = .ok (flow', seen')) :
    Explained flow flow' (quantityOf e.kind flowClass kind) ⟨account, money.currency⟩ money.amount.raw := by
  cases kind with
  | fee => exact chargeFee_ok (map_fst_ok h)
  | tax => exact chargeTax_ok (map_fst_ok h)
  | cash => exact explainCash_ok h
  | securityQuantity =>
    cases h
    exact .none _ _ _
  | principal =>
    unfold explain at h
    cases hk : e.kind <;> rw [hk] at h
    case corporateAction => exact invest_ok (map_fst_ok h)
    case offerExercise => exact invest_ok (map_fst_ok h)
    all_goals
      cases h
      exact .none _ _ _

/-! ### One leg, one event, one run -/

/-- An amount has moved on a key, and the quantity, if there is one, explains it. -/
structure Moved (flow flow' : MoneyFlow) (quantity : Option Quantity) (key : CashKey) (minor : Int) : Prop where
  delta : Added flow.cashDelta flow'.cashDelta key minor
  explained : Explained { flow with cashDelta := flow'.cashDelta } flow' quantity key minor

/-- What a reading of the flow gains from a leg, when a movement gives it `share`. -/
def legShare (share : Option Quantity → CashKey → Int → Int) (contour : ContourDefinition) (e : Event) (leg : Leg) :
    Int :=
  if contour.contains leg.account then
    match leg.cashEffect with
    | some money => share (quantityOf e.kind (classify contour e) leg.kind) ⟨leg.account, money.currency⟩ money.amount.raw
    | none => 0
  else 0

/-- The report counts the event: it concerns the contour, and it is dated in the window. -/
def counts (contour : ContourDefinition) (window : DateWindow) (e : Event) : Bool :=
  classify contour e ≠ .irrelevant && e.dates.effectiveDate.any window.covers

def eventShare (share : Option Quantity → CashKey → Int → Int) (contour : ContourDefinition) (window : DateWindow)
    (e : Event) : Int :=
  if counts contour window e then (e.legs.map (legShare share contour e)).sum else 0

/-- A reading of the flow to which every movement adds its share. -/
structure Reading (g : MoneyFlow → Int) (share : Option Quantity → CashKey → Int → Int) : Prop where
  unstated : ∀ flow ledger, g { flow with unstated := ledger } = g flow
  moved : ∀ {flow flow' quantity key minor}, Moved flow flow' quantity key minor →
    g flow' = g flow + share quantity key minor

variable {contour : ContourDefinition} {window : DateWindow} {categories : CategoryIndex}

theorem applyLeg_ok {e : Event} {assignment : Option CategoryAssignment} {acc acc' : MoneyFlow × Seen} {leg : Leg}
    (h : applyLeg e contour (classify contour e) assignment acc leg = .ok acc') {g : MoneyFlow → Int}
    {share : Option Quantity → CashKey → Int → Int} (hg : Reading g share) :
    g acc'.1 = g acc.1 + legShare share contour e leg := by
  unfold applyLeg at h
  unfold legShare
  cases hin : contour.contains leg.account with
  | false =>
    rw [hin] at h
    cases h
    simp
  | true =>
    cases hm : leg.cashEffect with
    | none =>
      rw [hin, hm] at h
      cases h
      simp
    | some money =>
      rw [hin, hm] at h
      obtain ⟨ledger, hadd, h⟩ := bind_ok.mp h
      have hexplained := explain_ok h
      have hdelta : acc'.1.cashDelta = ledger := hexplained.delta
      subst hdelta
      rw [hg.moved ⟨Ledger.add_ok hadd, hexplained⟩]
      simp

theorem state_ok {e : Event} (h : flow.state e = .ok flow') : ∃ ledger, flow' = { flow with unstated := ledger } := by
  unfold state at h
  split at h
  · obtain ⟨ledger, -, h⟩ := bind_ok.mp h
    cases h
    exact ⟨ledger, rfl⟩
  · cases h
    exact ⟨flow.unstated, rfl⟩

theorem eventBelongs_ok {e : Event} {belongs : Bool}
    (h : eventBelongs e contour window (classify contour e) = .ok belongs) : belongs = counts contour window e := by
  unfold eventBelongs at h
  unfold counts
  by_cases hc : classify contour e = .irrelevant
  · rw [if_pos hc] at h
    cases h
    simp [hc]
  · rw [if_neg hc] at h
    cases hd : e.dates.effectiveDate with
    | none =>
      rw [hd] at h
      dsimp only at h
      split_ifs at h
      cases h
      simp
    | some on =>
      rw [hd] at h
      cases h
      simp [hc]

theorem apply_adds {e : Event} {g : MoneyFlow → Int} {share : Option Quantity → CashKey → Int → Int}
    (hg : Reading g share) (h : apply contour window categories flow e = .ok flow') :
    g flow' = g flow + eventShare share contour window e := by
  obtain ⟨belongs, hbelongs, h⟩ := bind_ok.mp h
  have hcounts := eventBelongs_ok hbelongs
  subst hcounts
  unfold eventShare
  cases hc : counts contour window e with
  | false =>
    rw [hc] at h
    cases h
    simp
  | true =>
    rw [hc] at h
    obtain ⟨stated, hstate, h⟩ := bind_ok.mp h
    obtain ⟨⟨after, seen⟩, hlegs, h⟩ := bind_ok.mp h
    cases h
    obtain ⟨ledger, rfl⟩ := state_ok hstate
    have hrun := (Runs.foldlM_ok.mp hlegs).adds (fun acc => g acc.1) (legShare share contour e)
      fun _ hleg => applyLeg_ok hleg hg
    rw [hrun, hg.unstated]
    simp

/-- Over a run, a reading grows by the shares of the events. -/
theorem run_adds {events : List Event} {g : MoneyFlow → Int} {share : Option Quantity → CashKey → Int → Int}
    (hg : Reading g share) (h : events.foldlM (apply contour window categories) flow = .ok flow') :
    g flow' = g flow + (events.map (eventShare share contour window)).sum :=
  (Runs.foldlM_ok.mp h).adds g _ fun _ hstep => apply_adds hg hstep

/-! ### The readings -/

theorem Moved.at_ledger {quantity : Option Quantity} {key : CashKey} {minor : Int}
    (h : Moved flow flow' quantity key minor) (q : Quantity) (k : CashKey) :
    MoneyFlow.at (flow'.ledgerOf q) k =
      MoneyFlow.at (flow.ledgerOf q) k + if quantity = some q ∧ key = k then q.signed minor else 0 := by
  have hsame : ledgerOf { flow with cashDelta := flow'.cashDelta } q = flow.ledgerOf q := by cases q <;> rfl
  by_cases hq : quantity = some q
  · have hadd := (h.explained.posted q hq).at k
    rw [hadd, hsame]
    simp [hq]
  · rw [h.explained.kept q hq, hsame]
    simp [hq]

theorem Moved.sumOver_ledger {quantity : Option Quantity} {key : CashKey} {minor : Int}
    (h : Moved flow flow' quantity key minor) (q : Quantity) (p : CashKey → Prop) [DecidablePred p] :
    sumOver (flow'.ledgerOf q) p =
      sumOver (flow.ledgerOf q) p + if quantity = some q ∧ p key then q.signed minor else 0 := by
  have hsame : ledgerOf { flow with cashDelta := flow'.cashDelta } q = flow.ledgerOf q := by cases q <;> rfl
  by_cases hq : quantity = some q
  · have hadd := (h.explained.posted q hq).sumOver p
    rw [hadd, hsame]
    simp [hq]
  · rw [h.explained.kept q hq, hsame]
    simp [hq]

theorem reading_residual (account : AccountId) (currency : CurrencyCode) :
    Reading (fun flow => flow.residualOf account currency) fun quantity key minor =>
      if quantity = none ∧ key = ⟨account, currency⟩ then minor else 0 where
  unstated := fun _ _ => rfl
  moved := fun {flow flow' quantity key minor} h => by
    have hdelta := h.delta.at ⟨account, currency⟩
    have hq := fun q => h.at_ledger q ⟨account, currency⟩
    have hcameIn := hq .cameIn
    have hwentOut := hq .wentOut
    have hearned := hq .earned
    have hassets := hq .assets
    have hfees := hq .fees
    have htaxes := hq .taxes
    have hinternal := hq .internal
    have hindeterminate := hq .indeterminate
    clear hq
    simp only [ledgerOf, Quantity.signed] at hcameIn hwentOut hearned hassets hfees htaxes hinternal hindeterminate
    simp only [residualOf]
    by_cases hk : key = ⟨account, currency⟩
    · -- One ledger, or none, takes up what the cash has gained.
      rcases quantity with _ | _ | _ <;> simp only [hk, reduceCtorEq, Option.some.injEq, and_true, if_true, if_false]
        at * <;> omega
    · simp only [hk, and_false, if_false] at *
      omega

theorem reading_at (q : Quantity) (k : CashKey) :
    Reading (fun flow => MoneyFlow.at (flow.ledgerOf q) k) fun quantity key minor =>
      if quantity = some q ∧ key = k then q.signed minor else 0 where
  unstated := fun _ _ => by cases q <;> rfl
  moved := fun h => h.at_ledger q k

theorem reading_sum (q : Quantity) (p : CashKey → Prop) [DecidablePred p] :
    Reading (fun flow => sumOver (flow.ledgerOf q) p) fun quantity key minor =>
      if quantity = some q ∧ p key then q.signed minor else 0 where
  unstated := fun _ _ => by cases q <;> rfl
  moved := fun h => h.sumOver_ledger q p

/-- The cash gains what moves. -/
theorem reading_cashDelta (p : CashKey → Prop) [DecidablePred p] :
    Reading (fun flow => sumOver flow.cashDelta p) fun _ key minor => if p key then minor else 0 where
  unstated := fun _ _ => rfl
  moved := fun h => h.delta.sumOver p

theorem reading_cashAt (k : CashKey) :
    Reading (fun flow => MoneyFlow.at flow.cashDelta k) fun _ key minor => if key = k then minor else 0 where
  unstated := fun _ _ => rfl
  moved := fun h => h.delta.at k

theorem reading_decomposed (c : CurrencyCode) :
    Reading (fun flow => flow.decomposedIn c) fun quantity key minor =>
      if quantity = some .wentOut ∧ key.currency = c then -minor else 0 where
  unstated := fun _ _ => rfl
  moved := fun h => h.explained.outflow c

theorem reading_sourced (c : CurrencyCode) :
    Reading (fun flow => flow.sourcedIn c) fun quantity key minor =>
      if quantity = some .earned ∧ key.currency = c then minor else 0 where
  unstated := fun _ _ => rfl
  moved := fun h => h.explained.sources c

end
end MoneyFlow
end Iaam
