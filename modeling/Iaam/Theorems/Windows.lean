import Iaam.Theorems.MoneyFlowIdentity

/-! Windows that follow each other. What a leg adds to the figures of a report is decided by its event alone, and an
event is filed by one date: the figures of a window are those of its parts. -/

namespace Iaam
namespace MoneyFlow
open Outcome

/-! ### Breakdowns -/

/-- An entry of a breakdown. -/
inductive BreakdownKey where
  | category (key : CategoryKey)
  | undecomposed (key : UndecomposedKey)
  | source (key : EarningKey)
  deriving DecidableEq

/-- The sum of the chosen entries of the breakdowns. -/
def breakdownSum (flow : MoneyFlow) (p : BreakdownKey → Bool) : Int :=
  sumOver flow.wentOutByCategory (fun key => p (.category key)) +
    sumOver flow.notDecomposed (fun key => p (.undecomposed key)) +
      sumOver flow.earnedByCapitalBySource (fun key => p (.source key))

/-- The entry that a leg is kept under a second time, if it is, and the amount that it adds there. -/
def breakdownOf (e : Event) (flowClass : FlowClass) (assignment : Option CategoryAssignment) (kind : LegKind)
    (account : AccountId) (money : Money) : Option (BreakdownKey × Int) :=
  let category := assignment.bind CategoryAssignment.category?
  match kind, e.kind with
  | .cash, .refund _ | .cash, .cashOut _ =>
    match category with
    | some category => some (.category ⟨category, money.currency⟩, -money.amount.raw)
    | none => some (.undecomposed ⟨account, money.currency, .noRuleMatched⟩, -money.amount.raw)
  | .cash, .cashTransfer .. =>
    match flowClass with
    | .externalOut .. => some (.undecomposed ⟨account, money.currency, .externalTransfer⟩, -money.amount.raw)
    | _ => none
  | .cash, .income instrument _ _ => some (.source ⟨⟨account, instrument, category⟩, money.currency⟩, money.amount.raw)
  | _, _ => none

/-- The share of an entry in the chosen ones. -/
def chosen (p : BreakdownKey → Bool) (entry : Option (BreakdownKey × Int)) : Int :=
  (entry.map fun entry => if p entry.1 then entry.2 else 0).getD 0

section
variable {flow flow' : MoneyFlow} {seen seen' : Seen} {account : AccountId} {money : Money} {event : EventId}
  {p : BreakdownKey → Bool}

theorem addNotDecomposed_breakdown {cause : UndecomposedCause}
    (h : flow.addNotDecomposed seen account money cause event = .ok (flow', seen')) :
    breakdownSum flow' p = breakdownSum flow p +
      chosen p (some (.undecomposed ⟨account, money.currency, cause⟩, money.amount.raw)) := by
  obtain ⟨ledger, hadd, h⟩ := bind_ok.mp h
  have hsum := (post_ok hadd).sumOver fun key => p (.undecomposed key)
  have hledger : flow'.wentOutByCategory = flow.wentOutByCategory ∧ flow'.notDecomposed = ledger ∧
      flow'.earnedByCapitalBySource = flow.earnedByCapitalBySource := by
    dsimp only at h
    split at h
    · cases h
      exact ⟨rfl, rfl, rfl⟩
    · obtain ⟨count, -, h⟩ := bind_ok.mp h
      cases h
      exact ⟨rfl, rfl, rfl⟩
  obtain ⟨hcategory, hnot, hsource⟩ := hledger
  simp only [breakdownSum, hcategory, hnot, hsource, hsum, chosen, Option.map_some, Option.getD_some]
  omega

/-- What is decomposed goes to the entry of its category, or among the rows without one. -/
theorem decompose_breakdown {assignment : Option CategoryAssignment}
    (h : flow.decompose seen account money assignment event = .ok (flow', seen')) :
    breakdownSum flow' p = breakdownSum flow p + chosen p (match assignment.bind CategoryAssignment.category? with
      | some category => some (.category ⟨category, money.currency⟩, money.amount.raw)
      | none => some (.undecomposed ⟨account, money.currency, .noRuleMatched⟩, money.amount.raw)) := by
  unfold decompose at h
  cases hcategory : assignment.bind CategoryAssignment.category? with
  | some category =>
    rw [hcategory] at h
    obtain ⟨ledger, hadd, h⟩ := bind_ok.mp h
    cases h
    have hsum := (post_ok hadd).sumOver fun key => p (.category key)
    simp only [breakdownSum, hsum, chosen, Option.map_some, Option.getD_some]
    omega
  | none =>
    rw [hcategory] at h
    rw [addNotDecomposed_breakdown h]

theorem breakdown_kept (hcategory : flow'.wentOutByCategory = flow.wentOutByCategory)
    (hnot : flow'.notDecomposed = flow.notDecomposed)
    (hsource : flow'.earnedByCapitalBySource = flow.earnedByCapitalBySource) :
    breakdownSum flow' p = breakdownSum flow p + chosen p none := by
  simp [breakdownSum, hcategory, hnot, hsource, chosen]

theorem spend_breakdown {assignment : Option CategoryAssignment}
    (h : flow.spend seen account money assignment event = .ok (flow', seen')) :
    breakdownSum flow' p = breakdownSum flow p + chosen p (match assignment.bind CategoryAssignment.category? with
      | some category => some (.category ⟨category, money.currency⟩, -money.amount.raw)
      | none => some (.undecomposed ⟨account, money.currency, .noRuleMatched⟩, -money.amount.raw)) := by
  obtain ⟨amount, hneg, h⟩ := bind_ok.mp h
  obtain ⟨ledger, -, h⟩ := bind_ok.mp h
  obtain ⟨hcurrency, hraw⟩ := negated_ok hneg
  rw [decompose_breakdown h, hcurrency, hraw]
  rfl

theorem transferOut_breakdown (h : flow.transferOut seen account money event = .ok (flow', seen')) :
    breakdownSum flow' p = breakdownSum flow p +
      chosen p (some (.undecomposed ⟨account, money.currency, .externalTransfer⟩, -money.amount.raw)) := by
  obtain ⟨amount, hneg, h⟩ := bind_ok.mp h
  obtain ⟨ledger, -, h⟩ := bind_ok.mp h
  obtain ⟨hcurrency, hraw⟩ := negated_ok hneg
  rw [addNotDecomposed_breakdown h, hcurrency, hraw]
  rfl

theorem earn_breakdown {instrument : Option InstrumentId} {assignment : Option CategoryAssignment}
    (h : flow.earn account instrument money assignment event = .ok flow') :
    breakdownSum flow' p = breakdownSum flow p + chosen p
      (some (.source ⟨⟨account, instrument, assignment.bind CategoryAssignment.category?⟩, money.currency⟩,
        money.amount.raw)) := by
  obtain ⟨ledger, -, h⟩ := bind_ok.mp h
  obtain ⟨sources, hsource, h⟩ := bind_ok.mp h
  cases h
  have hsum := (post_ok hsource).sumOver fun key => p (.source key)
  simp only [breakdownSum, hsum, chosen, Option.map_some, Option.getD_some]
  omega

/-- The other quantities have no breakdown. -/
theorem write_breakdown {q : Quantity} {ledger : Ledger} :
    breakdownSum (flow.write q ledger) p = breakdownSum flow p + chosen p none := by
  cases q <;> exact breakdown_kept rfl rfl rfl

theorem arrive_breakdown (h : flow.arrive account money event = .ok flow') :
    breakdownSum flow' p = breakdownSum flow p + chosen p none := by
  obtain ⟨ledger, -, h⟩ := bind_ok.mp h
  cases h
  exact write_breakdown (q := .cameIn)

theorem invest_breakdown (h : flow.invest account money event = .ok flow') :
    breakdownSum flow' p = breakdownSum flow p + chosen p none := by
  obtain ⟨amount, -, h⟩ := bind_ok.mp h
  obtain ⟨ledger, -, h⟩ := bind_ok.mp h
  cases h
  exact write_breakdown (q := .assets)

theorem chargeFee_breakdown (h : flow.chargeFee account money event = .ok flow') :
    breakdownSum flow' p = breakdownSum flow p + chosen p none := by
  obtain ⟨amount, -, h⟩ := bind_ok.mp h
  obtain ⟨ledger, -, h⟩ := bind_ok.mp h
  cases h
  exact write_breakdown (q := .fees)

theorem chargeTax_breakdown (h : flow.chargeTax account money event = .ok flow') :
    breakdownSum flow' p = breakdownSum flow p + chosen p none := by
  obtain ⟨amount, -, h⟩ := bind_ok.mp h
  obtain ⟨ledger, -, h⟩ := bind_ok.mp h
  cases h
  exact write_breakdown (q := .taxes)

theorem transferInside_breakdown (h : flow.transferInside account money event = .ok flow') :
    breakdownSum flow' p = breakdownSum flow p + chosen p none := by
  obtain ⟨ledger, -, h⟩ := bind_ok.mp h
  cases h
  exact write_breakdown (q := .internal)

theorem leaveOpen_breakdown (h : flow.leaveOpen account money event = .ok flow') :
    breakdownSum flow' p = breakdownSum flow p + chosen p none := by
  obtain ⟨ledger, -, h⟩ := bind_ok.mp h
  cases h
  exact write_breakdown (q := .indeterminate)

theorem explainCash_breakdown {e : Event} {flowClass : FlowClass} {assignment : Option CategoryAssignment}
    (h : explainCash e flowClass assignment flow seen account money = .ok (flow', seen')) :
    breakdownSum flow' p = breakdownSum flow p + chosen p (breakdownOf e flowClass assignment .cash account money) := by
  simp only [explainCash, breakdownOf] at h ⊢
  cases hk : e.kind with
  | trade _ | corporateAction _ | offerExercise _ =>
    rw [hk] at h
    exact invest_breakdown (map_fst_ok h)
  | income _ _ _ =>
    rw [hk] at h
    exact earn_breakdown (map_fst_ok h)
  | cashIn _ =>
    rw [hk] at h
    exact arrive_breakdown (map_fst_ok h)
  | refund _ | cashOut _ =>
    rw [hk] at h
    exact spend_breakdown h
  | ownAccountMovement _ =>
    rw [hk] at h
    exact leaveOpen_breakdown (map_fst_ok h)
  | cashTransfer _ _ _ _ =>
    rw [hk] at h
    cases flowClass with
    | internal => exact transferInside_breakdown (map_fst_ok h)
    | externalIn _ _ => exact arrive_breakdown (map_fst_ok h)
    | externalOut _ _ => exact transferOut_breakdown h
    | indeterminate _ _ | irrelevant =>
      cases h
      exact breakdown_kept rfl rfl rfl
  | _ =>
    rw [hk] at h
    cases h
    exact breakdown_kept rfl rfl rfl

theorem explain_breakdown {e : Event} {flowClass : FlowClass} {assignment : Option CategoryAssignment} {kind : LegKind}
    (h : explain e flowClass assignment flow seen kind account money = .ok (flow', seen')) :
    breakdownSum flow' p = breakdownSum flow p + chosen p (breakdownOf e flowClass assignment kind account money) := by
  cases kind with
  | fee => exact chargeFee_breakdown (map_fst_ok h)
  | tax => exact chargeTax_breakdown (map_fst_ok h)
  | cash => exact explainCash_breakdown h
  | securityQuantity =>
    cases h
    exact breakdown_kept rfl rfl rfl
  | principal =>
    simp only [explain] at h
    cases hk : e.kind <;> rw [hk] at h
    case corporateAction => exact invest_breakdown (map_fst_ok h)
    case offerExercise => exact invest_breakdown (map_fst_ok h)
    all_goals
      cases h
      exact breakdown_kept rfl rfl rfl

end
/-! ### Events by window -/

/-- A reading that starts at nothing, and to which an event that the report counts adds a share of its own. -/
structure Filed (contour : ContourDefinition) (categories : CategoryIndex) (g : MoneyFlow → Int) (share : Event → Int) :
    Prop where
  start : g new = 0
  step : ∀ {window flow flow' e}, apply contour window categories flow e = .ok flow' →
    g flow' = g flow + if counts contour window e then share e else 0

section
variable {contour : ContourDefinition} {categories : CategoryIndex} {g : MoneyFlow → Int}

theorem Reading.filed {share : Option Quantity → CashKey → Int → Int} (hg : Reading g share) (hstart : g new = 0) :
    Filed contour categories g fun e => (e.legs.map (legShare share contour e)).sum where
  start := hstart
  step := fun h => apply_adds hg h

/-- What a leg is kept under a second time. -/
def legBreakdown (contour : ContourDefinition) (e : Event) (assignment : Option CategoryAssignment) (leg : Leg) :
    Option (BreakdownKey × Int) :=
  if contour.contains leg.account then
    leg.cashEffect.bind fun money => breakdownOf e (classify contour e) assignment leg.kind leg.account money
  else none

theorem applyLeg_breakdown {p : BreakdownKey → Bool} {e : Event} {assignment : Option CategoryAssignment}
    {acc acc' : MoneyFlow × Seen} {leg : Leg}
    (h : applyLeg e contour (classify contour e) assignment acc leg = .ok acc') :
    breakdownSum acc'.1 p = breakdownSum acc.1 p + chosen p (legBreakdown contour e assignment leg) := by
  obtain ⟨flow', seen'⟩ := acc'
  simp only [applyLeg, legBreakdown] at h ⊢
  cases hin : contour.contains leg.account with
  | false =>
    rw [hin] at h
    cases h
    simp [chosen]
  | true =>
    cases hmoney : leg.cashEffect with
    | none =>
      rw [hin, hmoney] at h
      cases h
      simp [chosen]
    | some money =>
      rw [hin, hmoney] at h
      obtain ⟨ledger, -, h⟩ := bind_ok.mp h
      have hadded := explain_breakdown (p := p) h
      exact hadded

theorem filed_breakdown (p : BreakdownKey → Bool) :
    Filed contour categories (fun flow => breakdownSum flow p) fun e =>
      (e.legs.map fun leg => chosen p (legBreakdown contour e (assignmentOf categories e) leg)).sum where
  start := by simp [breakdownSum, sumOver, new]
  step := by
    intro window flow flow' e h
    obtain ⟨belongs, hbelongs, h⟩ := bind_ok.mp h
    cases eventBelongs_ok hbelongs
    cases hcounts : counts contour window e with
    | false =>
      rw [hcounts] at h
      cases h
      simp
    | true =>
      rw [hcounts] at h
      obtain ⟨stated, hstate, h⟩ := bind_ok.mp h
      obtain ⟨⟨after, seen⟩, hlegs, h⟩ := bind_ok.mp h
      cases h
      obtain ⟨ledger, rfl⟩ := state_ok hstate
      have hrun := (Runs.foldlM_ok.mp hlegs).adds (fun acc => breakdownSum acc.1 p) _ fun _ hleg => applyLeg_breakdown hleg
      exact hrun

variable {share : Event → Int} {events : List Event} {window : DateWindow} {flow : MoneyFlow}

theorem Filed.run_eq (hg : Filed contour categories g share)
    (h : events.foldlM (apply contour window categories) new = .ok flow) :
    g flow = ((events.filter (counts contour window)).map share).sum := by
  have hrun := (Runs.foldlM_ok.mp h).adds g (fun e => if counts contour window e then share e else 0)
    fun _ hstep => hg.step hstep
  rw [hrun, hg.start, zero_add]
  clear h hrun
  induction events with
  | nil => rfl
  | cons e events ih => cases hcounts : counts contour window e <;> simp [hcounts, ih]

/-- Windows that follow each other count each event of the whole once. -/
theorem counts_splits (contour : ContourDefinition) {a b c : Date} (hab : a ≤ b) (hbc : b < c) (events : List Event) :
    Cut.Splits (counts contour ⟨a, c⟩) (counts contour ⟨a, b⟩) (counts contour ⟨b.next, c⟩) events := by
  intro e _
  rw [← not_le, Date.le_iff] at hbc
  rw [Date.le_iff] at hab
  simp only [counts]
  by_cases hclass : classify contour e = .irrelevant
  · simp [hclass]
  · cases e.dates.effectiveDate with
    | none => simp
    | some on =>
      have hrelevant : decide (classify contour e ≠ .irrelevant) = true := decide_eq_true hclass
      rw [hrelevant]
      simp only [Option.any_some, DateWindow.covers, Date.next, Date.le_iff, Bool.true_and]
      constructor
      · rw [← Bool.decide_and, ← Bool.decide_and, ← Bool.decide_and, ← Bool.decide_or, decide_eq_decide]
        omega
      · rw [← Bool.decide_and, ← Bool.decide_and, ← Bool.decide_and, decide_eq_false_iff_not]
        omega

/-- A reading of a window is the sum of the readings of its parts. -/
theorem Filed.windows (hg : Filed contour categories g share) {a b c : Date} (hab : a ≤ b) (hbc : b < c)
    {whole first second : MoneyFlow} (hwhole : events.foldlM (apply contour ⟨a, c⟩ categories) new = .ok whole)
    (hfirst : events.foldlM (apply contour ⟨a, b⟩ categories) new = .ok first)
    (hsecond : events.foldlM (apply contour ⟨b.next, c⟩ categories) new = .ok second) :
    g whole = g first + g second := by
  rw [hg.run_eq hwhole, hg.run_eq hfirst, hg.run_eq hsecond]
  exact Cut.sum_eq_add (counts_splits contour hab hbc events) share

end
/-! ### The figures of a report -/

/-- The totals of the signed ledgers. What moved between the accounts is not one of them: it is one-sided. -/
def cashTotals : List (MoneyFlow → CurrencyCode → Except MoneyFlowError Money) :=
  [cameInTotal, wentOutTotal, earnedByCapitalTotal, movedIntoAssetsTotal, feesTotal, taxesTotal, indeterminateTotal,
    cashDeltaTotal]

theorem sumOver_false {κ : Type} [LinearOrder κ] (ledger : Tree.Map κ PostedMinor) :
    sumOver ledger (fun _ => False) = 0 := by
  simp [sumOver, Tree.total]

/-- What the rows of a breakdown list for a group; a group that is not listed has nothing. -/
def listedFor {γ : Type} [DecidableEq γ] (rows : List (γ × Money)) (group : γ) : Int :=
  ((rows.filter fun row => row.1 = group).map fun row => row.2.amount.raw).sum

theorem listedFor_breakdown {κ γ : Type} [LinearOrder κ] [LinearOrder γ] [DecidableEq γ] {ledger : Tree.Map κ PostedMinor} {group : κ → γ}
    {currencyOf : κ → CurrencyCode} {currency : CurrencyCode} {quantity : String} {rows : List (γ × Money)}
    (h : breakdown ledger group currencyOf currency quantity = .ok rows) (g : γ) :
    listedFor rows g = sumOver ledger fun key => currencyOf key = currency ∧ group key = g :=
  breakdown_of h (· = g)

/-- The figures of a report are the sums of the figures of two others. -/
structure AddsUp (whole first second : MoneyFlow) : Prop where
  totals : ∀ total ∈ cashTotals, ∀ currency amount amount₁ amount₂, total whole currency = .ok amount →
    total first currency = .ok amount₁ → total second currency = .ok amount₂ →
      amount.amount.raw = amount₁.amount.raw + amount₂.amount.raw
  categories : ∀ currency rows rows₁ rows₂, whole.wentOutByCategoryIn currency = .ok rows →
    first.wentOutByCategoryIn currency = .ok rows₁ → second.wentOutByCategoryIn currency = .ok rows₂ →
      ∀ category, listedFor rows category = listedFor rows₁ category + listedFor rows₂ category
  undecomposed : ∀ currency row row₁ row₂, whole.notDecomposedIn currency = .ok row →
    first.notDecomposedIn currency = .ok row₁ → second.notDecomposedIn currency = .ok row₂ →
      row.2.amount.raw = row₁.2.amount.raw + row₂.2.amount.raw
  sources : ∀ currency rows rows₁ rows₂, whole.earnedByCapitalBySourceIn currency = .ok rows →
    first.earnedByCapitalBySourceIn currency = .ok rows₁ → second.earnedByCapitalBySourceIn currency = .ok rows₂ →
      ∀ source, listedFor rows source = listedFor rows₁ source + listedFor rows₂ source
  accounts : ∀ q key, MoneyFlow.at (whole.ledgerOf q) key =
    MoneyFlow.at (first.ledgerOf q) key + MoneyFlow.at (second.ledgerOf q) key
  movement : ∀ key, MoneyFlow.at whole.cashDelta key = MoneyFlow.at first.cashDelta key + MoneyFlow.at second.cashDelta key

/-! The entries of the breakdowns behind one row of the report. -/

def BreakdownKey.isOfCategory (currency : CurrencyCode) (id : CategoryId) : BreakdownKey → Bool
  | category key => key.currency = currency ∧ key.category = id
  | undecomposed _ | source _ => false

def BreakdownKey.isUndecomposed (currency : CurrencyCode) : BreakdownKey → Bool
  | undecomposed key => key.currency = currency
  | category _ | source _ => false

def BreakdownKey.isOfSource (currency : CurrencyCode) (wanted : EarningSource) : BreakdownKey → Bool
  | source key => key.currency = currency ∧ key.source = wanted
  | category _ | undecomposed _ => false

/-- Any reading of a window that is filed by event adds up, and so do the figures that are such readings. -/
theorem adds_up {contour : ContourDefinition} {categories : CategoryIndex} {whole first second : MoneyFlow}
    (h : ∀ {g : MoneyFlow → Int} {share : Event → Int}, Filed contour categories g share →
      g whole = g first + g second) : AddsUp whole first second := by
  have hquantity : ∀ q c, sumOver (whole.ledgerOf q) (·.currency = c) =
      sumOver (first.ledgerOf q) (·.currency = c) + sumOver (second.ledgerOf q) (·.currency = c) := fun q c =>
    h ((reading_sum q (·.currency = c)).filed (by cases q <;> simp [sumOver, ledgerOf, new]))
  have hdelta : ∀ c, sumOver whole.cashDelta (·.currency = c) =
      sumOver first.cashDelta (·.currency = c) + sumOver second.cashDelta (·.currency = c) := fun c =>
    h ((reading_cashDelta (·.currency = c)).filed (by simp [sumOver, new]))
  constructor
  case totals =>
    intro total htotal currency amount amount₁ amount₂ hw hf hs
    simp only [cashTotals, List.mem_cons, List.not_mem_nil, or_false] at htotal
    rcases htotal with rfl | rfl | rfl | rfl | rfl | rfl | rfl | rfl <;> rw [total_ok hw, total_ok hf, total_ok hs]
    · exact hquantity .cameIn currency
    · exact hquantity .wentOut currency
    · exact hquantity .earned currency
    · exact hquantity .assets currency
    · exact hquantity .fees currency
    · exact hquantity .taxes currency
    · exact hquantity .indeterminate currency
    · exact hdelta currency
  case categories =>
    intro currency rows rows₁ rows₂ hw hf hs category
    rw [listedFor_breakdown hw, listedFor_breakdown hf, listedFor_breakdown hs]
    simpa [breakdownSum, sumOver_false, BreakdownKey.isOfCategory] using
      h (filed_breakdown (BreakdownKey.isOfCategory currency category))
  case undecomposed =>
    intro currency row row₁ row₂ hw hf hs
    rw [notDecomposed_ok hw, notDecomposed_ok hf, notDecomposed_ok hs]
    simpa [breakdownSum, sumOver_false, BreakdownKey.isUndecomposed] using
      h (filed_breakdown (BreakdownKey.isUndecomposed currency))
  case sources =>
    intro currency rows rows₁ rows₂ hw hf hs source
    rw [listedFor_breakdown hw, listedFor_breakdown hf, listedFor_breakdown hs]
    simpa [breakdownSum, sumOver_false, BreakdownKey.isOfSource] using
      h (filed_breakdown (BreakdownKey.isOfSource currency source))
  case accounts =>
    intro q key
    exact h ((reading_at q key).filed (by cases q <;> simp [MoneyFlow.at, ledgerOf, new]))
  case movement =>
    intro key
    exact h ((reading_cashAt key).filed (by simp [MoneyFlow.at, new]))

/-- The report of a window is the sum of the reports of two windows that it is cut into. -/
theorem windows_add_up {contour : ContourDefinition} {categories : CategoryIndex} {events : List Event} {a b c : Date}
    (hab : a ≤ b) (hbc : b < c) {whole first second : MoneyFlow}
    (hwhole : events.foldlM (apply contour ⟨a, c⟩ categories) new = .ok whole)
    (hfirst : events.foldlM (apply contour ⟨a, b⟩ categories) new = .ok first)
    (hsecond : events.foldlM (apply contour ⟨b.next, c⟩ categories) new = .ok second) : AddsUp whole first second :=
  adds_up fun hg => hg.windows hab hbc hwhole hfirst hsecond

/-- The month of the household, cut between the purchase and its refund. -/
theorem sampleMonth_adds_up :
    ∃ whole first second, sampleMonth.foldlM (apply household ⟨⟨1⟩, ⟨30⟩⟩ foodOnly) new = .ok whole ∧
      sampleMonth.foldlM (apply household ⟨⟨1⟩, ⟨3⟩⟩ foodOnly) new = .ok first ∧
        sampleMonth.foldlM (apply household ⟨⟨4⟩, ⟨30⟩⟩ foodOnly) new = .ok second ∧ AddsUp whole first second := by
  obtain ⟨whole, hwhole⟩ := exists_ok
    (show (sampleMonth.foldlM (apply household ⟨⟨1⟩, ⟨30⟩⟩ foodOnly) new).isOk = true by decide)
  obtain ⟨first, hfirst⟩ := exists_ok
    (show (sampleMonth.foldlM (apply household ⟨⟨1⟩, ⟨3⟩⟩ foodOnly) new).isOk = true by decide)
  obtain ⟨second, hsecond⟩ := exists_ok
    (show (sampleMonth.foldlM (apply household ⟨⟨4⟩, ⟨30⟩⟩ foodOnly) new).isOk = true by decide)
  exact ⟨whole, first, second, hwhole, hfirst, hsecond, windows_add_up (b := ⟨3⟩) (by decide) (by decide) hwhole hfirst hsecond⟩

end MoneyFlow
end Iaam
