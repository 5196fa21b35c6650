import Iaam.Lib.Runs
import Iaam.ZeroReinvestment

/-! The scenarios that are offered for a bond and the payments they are planned with. A window is offered up to the day on
which it is executed, that day included, and the plan counts what is due by the day of the report as past: on the day itself
the settlement is in neither the payments to come nor the wealth they add up to. -/

namespace Iaam
namespace Cashflow
open Bond Outcome

/-- The settlements among the payments to come. -/
def settlements (postings : List ExpectedPosting) : List ExpectedPosting := postings.filter fun p => p.kind = .offerSettlement

section
variable {input : CashflowInput} {postings postings' : Postings} {cutoff : Option Date} {original : PerUnitAmount}
  {schedule : FullSchedule} {asOf : Date} {window : OfferWindowId} {terms : OfferWindowTerms} {plan : CashflowPlan}

/-! ### The steps -/

theorem settlements_append (l l' : List ExpectedPosting) : settlements (l ++ l') = settlements l ++ settlements l' :=
  List.filter_append ..

theorem settlements_addCoupon {period : AccrualPeriod} (h : addCoupon input cutoff postings period = .ok postings') :
    settlements postings'.1 = settlements postings.1 := by
  simp only [addCoupon] at h
  split at h
  · cases h
    rfl
  · split at h
    · cases hcoupon : period.couponPerUnit with
      | none =>
        rw [hcoupon] at h
        cases h
      | some coupon =>
        rw [hcoupon] at h
        obtain ⟨amount, -, h⟩ := bind_ok.mp h
        cases h
        simp [settlements]
    · cases h
      rfl

theorem settlements_addReturn {item : Bond.PrincipalReturn} (h : addReturn input original cutoff postings item = .ok postings') :
    settlements postings'.1 = settlements postings.1 := by
  simp only [addReturn] at h
  split at h
  · cases h
    rfl
  · split at h
    · obtain ⟨share, -, h⟩ := bind_ok.mp h
      obtain ⟨amount, -, h⟩ := bind_ok.mp h
      cases h
      simp [settlements]
    · cases h
      rfl

/-- The settlement is still to come exactly when it is executed after the day of the report. -/
theorem settlements_addSettlement (h : addSettlement input original (some terms) postings = .ok postings') :
    (settlements postings'.1).length =
      (settlements postings.1).length + if input.asOf < terms.executionDate then 1 else 0 := by
  simp only [addSettlement] at h
  cases hprice : terms.pricePercent with
  | none =>
    rw [hprice] at h
    cases h
  | some price =>
    rw [hprice] at h
    obtain ⟨share, -, h⟩ := bind_ok.mp h
    obtain ⟨settlement, -, h⟩ := bind_ok.mp h
    split at h
    · next hpast =>
      cases h
      rw [if_neg (not_lt.mpr hpast), Nat.add_zero]
    · next hfuture =>
      cases h
      rw [if_pos (not_le.mp hfuture), settlements_append, List.length_append]
      rfl

/-! ### The plan -/

/-- An offer that can be exercised is the first one under its window. -/
theorem find_of_offerOf {offer : Option OfferWindowTerms} (h : offerOf schedule (.exerciseAtOffer window) = .ok offer) :
    ∃ terms, offer = some terms ∧ schedule.offerWindows.find? (fun terms => terms.window = window) = some terms := by
  simp only [offerOf] at h
  cases hfind : schedule.offerWindows.find? fun terms => terms.window = window with
  | none =>
    rw [hfind] at h
    cases h
  | some terms =>
    rw [hfind] at h
    cases hright : terms.right with
    | holderPut =>
      simp only [hright] at h
      split at h
      · cases h
      · cases h
        exact ⟨terms, rfl, rfl⟩
    | holderPutSettled | issuerCall | other =>
      simp only [hright] at h
      cases h

theorem settlements_of_foldlM {α : Type} {step : Postings → α → Except CashflowError Postings} {items : List α}
    (hstep : ∀ {postings item postings'}, step postings item = .ok postings' →
      settlements postings'.1 = settlements postings.1)
    (h : items.foldlM step postings = .ok postings') : settlements postings'.1 = settlements postings.1 :=
  (Runs.foldlM_ok.mp h).keeps (P := fun s : Postings => settlements s.1 = settlements postings.1)
    (fun hs hr => (hstep hr).trans hs) rfl

/-- How many settlements a plan of an offer has. -/
theorem settlements_of_futurePostings (hchoice : input.choice = .exerciseAtOffer window)
    (h : futurePostingsV2 input = .ok plan) :
    ∃ terms, input.schedule.offerWindows.find? (fun terms => terms.window = window) = some terms ∧
      (settlements plan.postings).length = if input.asOf < terms.executionDate then 1 else 0 := by
  obtain ⟨planV1, hplan, h⟩ := bind_ok.mp h
  obtain ⟨past, -, h⟩ := bind_ok.mp h
  cases h
  obtain ⟨_, -, h⟩ := bind_ok.mp hplan
  obtain ⟨_, -, h⟩ := bind_ok.mp h
  obtain ⟨_, -, h⟩ := bind_ok.mp h
  obtain ⟨original, -, h⟩ := bind_ok.mp h
  obtain ⟨_, -, h⟩ := bind_ok.mp h
  obtain ⟨offer, hoffer, h⟩ := bind_ok.mp h
  obtain ⟨_, -, h⟩ := bind_ok.mp h
  obtain ⟨coupons, hcoupons, h⟩ := bind_ok.mp h
  obtain ⟨returns, hreturns, h⟩ := bind_ok.mp h
  obtain ⟨postings, hpostings, h⟩ := bind_ok.mp h
  cases h
  rw [hchoice] at hoffer
  obtain ⟨terms, rfl, hfind⟩ := find_of_offerOf hoffer
  have hsorted : (settlements (postings.1.insertionSort fun l r => l.date ≤ r.date)).length =
      (settlements postings.1).length := ((List.perm_insertionSort _ _).filter _).length_eq
  refine ⟨terms, hfind, hsorted.trans ?_⟩
  rw [settlements_addSettlement hpostings, settlements_of_foldlM settlements_addReturn hreturns,
    settlements_of_foldlM settlements_addCoupon hcoupons]
  exact Nat.zero_add _

/-- An offer, listed or not, has its settlement among the payments to come exactly when its window, under the first terms
    the schedule has for it, is executed after the day of the report. -/
theorem settlement_planned_iff {quantity : Quantity} {currency : CurrencyCode}
    (hplan : futurePostingsV2 ⟨schedule, quantity, .exerciseAtOffer window, asOf, currency⟩ = .ok plan) :
    (settlements plan.postings).length = 1 ↔
      ∃ terms, schedule.offerWindows.find? (fun terms => terms.window = window) = some terms ∧
        asOf < terms.executionDate := by
  obtain ⟨terms, hfind, hlength⟩ := settlements_of_futurePostings rfl hplan
  rw [hlength, hfind]
  constructor
  · intro h
    split at h
    · next hafter => exact ⟨terms, rfl, hafter⟩
    · cases h
  · rintro ⟨_, ⟨⟩, hafter⟩
    exact if_pos hafter

/-! ### The wealth at the end -/

/-- The wealth of a scenario is made of the payments to come and of nothing else. -/
theorem terminalWealth_ok {Rate Refusal : Type} {solver : ZeroReinvestment.Solver Rate Refusal}
    {expected : List ExpectedPosting} {c0 : CalcMoney} {coordinate terminalDate : Date}
    {metrics : ZeroReinvestment.ZeroReinvestmentMetrics Rate Refusal}
    (h : ZeroReinvestment.zeroReinvestmentMetrics solver expected c0 coordinate terminalDate = .ok metrics) :
    metrics.postings = expected ∧
      metrics.terminalWealth.value.val = (expected.map fun p => p.amount.value.val).sum := by
  obtain ⟨wealth, hwealth, h⟩ := bind_ok.mp h
  obtain ⟨surplus, -, h⟩ := bind_ok.mp h
  obtain ⟨cagr, -, h⟩ := bind_ok.mp h
  cases h
  have hsum := (Runs.foldlM_ok.mp hwealth).adds (fun wealth : CalcMoney => wealth.value.val)
    (fun p : ExpectedPosting => p.amount.value.val) fun _ hstep => by
      simp only [ZeroReinvestment.addToWealth] at hstep
      split at hstep
      · cases hstep
      · exact (CalcMoney.checkedAdd_ok.mp (mapError_ok.mp hstep)).2.1
  exact ⟨rfl, hsum.trans (zero_add _)⟩

end

/-! ### The day of the execution -/

/-- A bond of a hundred roubles with one offer, at its face value, executed on the tenth day. -/
def putOnTheTenth : FullSchedule where
  principalReturns := [⟨⟨100⟩, .hundred⟩]
  initialPrincipal := some ⟨.hundred, .rub⟩
  completeness := .validated
  periods := []
  offerWindows := [⟨⟨1⟩, .holderPut, ⟨10⟩, some .hundred⟩]
  defaultFlags := some ⟨false, false⟩
  currencyRoles := some ⟨.rub, .rub, .rub⟩

/-- On the day of its execution the offer is listed, and its plan and its wealth are empty. -/
theorem put_on_its_day :
    .exerciseAtOffer ⟨1⟩ ∈ availableChoices putOnTheTenth ⟨10⟩ ∧
      ∃ plan, futurePostingsV2 ⟨putOnTheTenth, .one, .exerciseAtOffer ⟨1⟩, ⟨10⟩, .rub⟩ = .ok plan ∧
        (settlements plan.postings).length ≠ 1 ∧
        ∃ metrics, ZeroReinvestment.zeroReinvestmentMetrics (⟨fun _ => .error (), ()⟩ : ZeroReinvestment.Solver Unit Unit)
          plan.postings ⟨.hundred, .rub⟩ ⟨10⟩ plan.terminalDate = .ok metrics ∧
            metrics.terminalWealth.value = .zero ∧ metrics.surplus.value.val = -100 := by
  refine ⟨by decide +kernel, ⟨[], ⟨10⟩, [⟨⟨10⟩, .offerSettlement, none⟩]⟩, by decide +kernel, by decide, ?_⟩
  obtain ⟨metrics, h⟩ := exists_ok (show (ZeroReinvestment.zeroReinvestmentMetrics
    (⟨fun _ => .error (), ()⟩ : ZeroReinvestment.Solver Unit Unit) [] ⟨.hundred, .rub⟩ ⟨10⟩ ⟨10⟩).isOk = true
      by decide +kernel)
  refine ⟨metrics, h, Dec.ext_val (terminalWealth_ok h).2, ?_⟩
  obtain ⟨wealth, hwealth, h⟩ := bind_ok.mp h
  cases hwealth
  obtain ⟨surplus, hsurplus, h⟩ := bind_ok.mp h
  obtain ⟨cagr, -, h⟩ := bind_ok.mp h
  cases h
  rw [(CalcMoney.checkedSub_ok.mp (mapError_ok.mp hsurplus)).2.1]
  norm_num

/-- The day before, the settlement is planned. -/
theorem put_before_its_day :
    ∃ plan, futurePostingsV2 ⟨putOnTheTenth, .one, .exerciseAtOffer ⟨1⟩, ⟨9⟩, .rub⟩ = .ok plan ∧
      ((settlements plan.postings).length = 1 ↔
        ∃ terms, putOnTheTenth.offerWindows.find? (fun terms => terms.window = ⟨1⟩) = some terms ∧
          (⟨9⟩ : Date) < terms.executionDate) := by
  obtain ⟨plan, h⟩ := exists_ok
    (show (futurePostingsV2 ⟨putOnTheTenth, .one, .exerciseAtOffer ⟨1⟩, ⟨9⟩, .rub⟩).isOk = true by decide +kernel)
  exact ⟨plan, h, settlement_planned_iff h⟩

end Cashflow
end Iaam
