import Iaam.Theorems.CashflowPlan

/-! The days between which a plan expects payments, and the coupons beyond them. -/

namespace Iaam
namespace Cashflow
open Bond Outcome Pairs Runs

/-! ### The days of the postings -/

section Days
variable {input : CashflowInput} {original : PerUnitAmount} {offer : Option OfferWindowTerms} {plan : CashflowPlan}

/-- Every posting is that of an item. -/
theorem Planned.exists_item (h : Planned input original offer plan) {posting : ExpectedPosting}
    (hp : posting ∈ plan.postings) :
    ∃ item ∈ itemsOf input original offer, item.ahead input.asOf = true ∧ posting.date = item.date ∧
      posting.kind = item.kind := by
  have hperm := h.expected.map_perm (f := fun posting => (posting.date, posting.kind))
    (g := fun item : Item => (item.date, item.kind)) fun hm => by rw [hm.date, hm.kind]
  obtain ⟨item, hitem, heq⟩ := List.mem_map.mp (hperm.mem_iff.mp (List.mem_map_of_mem hp))
  obtain ⟨hitem, hahead⟩ := List.mem_filter.mp hitem
  obtain ⟨hdate, hkind⟩ := Prod.mk.inj heq
  exact ⟨item, hitem, hahead, hdate.symm, hkind.symm⟩

theorem ahead_iff {asOf : Date} {item : Item} : item.ahead asOf = true ↔ asOf < item.date ∧ item.counts = true := by
  simp [Item.ahead, Item.due]

theorem offerOf_none {schedule : FullSchedule} {choice : OfferChoice} (h : offerOf schedule choice = .ok none) :
    choice = .holdToMaturity := by
  cases choice with
  | holdToMaturity => rfl
  | exerciseAtOffer window =>
    simp only [offerOf] at h
    split at h
    · cases h
    · split at h
      · split at h <;> cases h
      all_goals cases h

/-- A repayment is not after the last one. -/
theorem repaymentDate_le {schedule : FullSchedule} {asOf : Date} {item : Bond.PrincipalReturn}
    (hitem : item ∈ schedule.principalReturns) : item.repaymentDate ≤ terminalDateOf schedule asOf none := by
  have hmem := List.mem_map_of_mem (f := Bond.PrincipalReturn.repaymentDate) hitem
  rw [terminalDateOf]
  cases hmax : (schedule.principalReturns.map Bond.PrincipalReturn.repaymentDate).max? with
  | none =>
    rw [List.max?_eq_none_iff.mp hmax] at hmem
    exact absurd hmem List.not_mem_nil
  | some last => exact (List.max?_eq_some_iff.mp hmax).2 _ hmem

/-- The last day of the scenario bounds what is counted of its items, but for the coupons of a bond that is held. -/
theorem date_le_terminal {item : Item} (hitem : item ∈ itemsOf input original offer) (hcounts : item.counts = true)
    (hheld : offer = none → item.kind = .coupon → ∀ period ∈ input.schedule.periods,
      input.asOf < period.paymentDate → period.paymentDate ≤ terminalDateOf input.schedule input.asOf none)
    (hahead : input.asOf < item.date) : item.date ≤ terminalDateOf input.schedule input.asOf offer := by
  rcases List.mem_append.mp hitem with hitem | hitem
  · obtain ⟨period, hperiod, rfl⟩ := List.mem_map.mp hitem
    cases offer with
    | none => exact hheld rfl rfl period hperiod hahead
    | some terms => exact of_decide_eq_true hcounts
  · rcases List.mem_append.mp hitem with hitem | hitem
    · obtain ⟨item, hmem, rfl⟩ := List.mem_map.mp hitem
      cases offer with
      | none => exact repaymentDate_le hmem
      | some terms => exact (of_decide_eq_true hcounts : item.repaymentDate < terms.executionDate).le
    · obtain ⟨terms, hterms, rfl⟩ := List.mem_map.mp hitem
      rw [Option.mem_toList.mp hterms]
      exact le_rfl

theorem futurePostingsV2_ok (h : futurePostingsV2 input = .ok plan) :
    ∃ first, futurePostingsV1 input = .ok first ∧ plan.postings = first.postings ∧
      plan.terminalDate = first.terminalDate := by
  obtain ⟨first, hfirst, h⟩ := bind_ok.mp h
  obtain ⟨past, -, h⟩ := bind_ok.mp h
  cases h
  exact ⟨first, hfirst, rfl, rfl⟩

theorem days_of_ok (h : futurePostingsV1 input = .ok plan) {posting : ExpectedPosting} (hp : posting ∈ plan.postings) :
    input.asOf < posting.date ∧
      ((input.choice = .holdToMaturity → posting.kind = .coupon → ∀ period ∈ input.schedule.periods,
          input.asOf < period.paymentDate → period.paymentDate ≤ plan.terminalDate) →
        posting.date ≤ plan.terminalDate) := by
  obtain ⟨original, offer, hplanned⟩ := planned_of_ok h
  obtain ⟨item, hitem, hahead, hdate, hkind⟩ := hplanned.exists_item hp
  obtain ⟨hafter, hcounts⟩ := ahead_iff.mp hahead
  rw [hplanned.terminal, hdate, hkind]
  refine ⟨hafter, fun hheld => date_le_terminal hitem hcounts (fun hnone hcoupon => ?_) hafter⟩
  subst hnone
  exact hheld (offerOf_none hplanned.chosen) hcoupon

end Days

/-! ### The coupons beyond -/

/-- The coupon is paid after the day of the report and after the last day of the scenario. -/
def beyond (asOf terminalDate : Date) (period : AccrualPeriod) : Bool :=
  asOf < period.paymentDate && terminalDate < period.paymentDate

def CashflowInput.withPeriods (input : CashflowInput) (periods : List AccrualPeriod) : CashflowInput :=
  { input with schedule := { input.schedule with periods := periods } }

/-- The periods up to the last day of the scenario. -/
def CashflowInput.within (input : CashflowInput) (terms : OfferWindowTerms) (periods : List AccrualPeriod) :
    List AccrualPeriod :=
  periods.filter fun period => !beyond input.asOf terms.executionDate period

/-- What is known of the coupons beyond the last day is in the currency of the report. -/
def OneCurrencyBeyond (input : CashflowInput) (terms : OfferWindowTerms) (periods : List AccrualPeriod) : Prop :=
  ∀ period ∈ periods, beyond input.asOf terms.executionDate period = true →
    ∀ coupon ∈ period.couponPerUnit, coupon.currency = input.reportCurrency

section Beyond
variable {input : CashflowInput} {terms : OfferWindowTerms} {periods : List AccrualPeriod}

theorem principalOf_within (h : OneCurrencyBeyond input terms periods) :
    principalOf { input.schedule with periods := periods } input.reportCurrency =
      principalOf { input.schedule with periods := input.within terms periods } input.reportCurrency := by
  have hany : (input.within terms periods).any
      (fun period => period.couponPerUnit.any fun coupon => coupon.currency ≠ input.reportCurrency) =
        periods.any fun period => period.couponPerUnit.any fun coupon => coupon.currency ≠ input.reportCurrency := by
    rw [Bool.eq_iff_iff, List.any_eq_true, List.any_eq_true]
    constructor
    · rintro ⟨period, hperiod, hother⟩
      exact ⟨period, List.mem_of_mem_filter hperiod, hother⟩
    · rintro ⟨period, hperiod, hother⟩
      refine ⟨period, List.mem_filter.mpr ⟨hperiod, ?_⟩, hother⟩
      cases hbeyond : beyond input.asOf terms.executionDate period with
      | false => rfl
      | true =>
        obtain ⟨coupon, hcoupon, hne⟩ := (Option.any_eq_true _ _).mp hother
        exact absurd (h period hperiod hbeyond coupon hcoupon) (of_decide_eq_true hne)
  simp only [principalOf, hany]

theorem couponsAreKnown_within :
    couponsAreKnown (input.withPeriods periods) terms.executionDate =
      couponsAreKnown (input.withPeriods (input.within terms periods)) terms.executionDate := by
  have hfind : (input.within terms periods).find? (fun period => decide (input.asOf < period.paymentDate) &&
      decide (period.paymentDate ≤ terms.executionDate) && period.couponPerUnit.isNone) =
        periods.find? fun period => decide (input.asOf < period.paymentDate) &&
          decide (period.paymentDate ≤ terms.executionDate) && period.couponPerUnit.isNone := by
    rw [CashflowInput.within, List.find?_filter]
    refine congrArg (List.find? · periods) (funext fun period => Bool.eq_iff_iff.mpr ?_)
    by_cases hwithin : period.paymentDate ≤ terms.executionDate
    · simp [beyond, not_lt.mpr hwithin]
    · simp [hwithin]
  simp only [couponsAreKnown, CashflowInput.withPeriods]
  congr 1
  exact hfind.symm

theorem addCoupon_within (postings : Postings) :
    periods.foldlM (addCoupon input (some terms.executionDate)) postings =
      (input.within terms periods).foldlM (addCoupon input (some terms.executionDate)) postings := by
  refine foldlM_filter _ (fun postings period _ hbeyond => ?_) postings
  rw [Bool.not_eq_false', beyond, Bool.and_eq_true, decide_eq_true_eq, decide_eq_true_eq] at hbeyond
  rw [addCoupon, if_neg (not_le.mpr hbeyond.1), if_neg]
  exact fun hcounts => not_le.mpr hbeyond.2 (of_decide_eq_true hcounts)

theorem history_within :
    historicalSchedulePostings { input.schedule with periods := periods } input.asOf =
      historicalSchedulePostings { input.schedule with periods := input.within terms periods } input.asOf := by
  have hdue : (input.within terms periods).filter (fun period => period.paymentDate ≤ input.asOf) =
      periods.filter fun period => period.paymentDate ≤ input.asOf := by
    rw [CashflowInput.within, List.filter_filter]
    refine List.filter_congr fun period _ => ?_
    by_cases hdue : period.paymentDate ≤ input.asOf
    · simp [beyond, not_lt.mpr hdue]
    · simp [hdue]
  simp only [historicalSchedulePostings, hdue]

/-- The coupons beyond the last day of an offer do not matter. -/
theorem futurePostingsV1_within (hoffer : offerOf input.schedule input.choice = .ok (some terms))
    (h : OneCurrencyBeyond input terms periods) :
    futurePostingsV1 (input.withPeriods periods) = futurePostingsV1 (input.withPeriods (input.within terms periods)) := by
  refine bind_congr fun _ => bind_congr fun _ => bind_congr fun _ => ?_
  refine (congrArg (· >>= _) (principalOf_within h)).trans (bind_congr fun original => bind_congr fun _ => ?_)
  change (offerOf input.schedule input.choice >>= _) = (offerOf input.schedule input.choice >>= _)
  rw [hoffer]
  change (couponsAreKnown (input.withPeriods periods) terms.executionDate >>= _) =
    (couponsAreKnown (input.withPeriods (input.within terms periods)) terms.executionDate >>= _)
  refine (congrArg (· >>= _) couponsAreKnown_within).trans (bind_congr fun _ => ?_)
  exact congrArg (· >>= _) (@addCoupon_within (input.withPeriods periods) _ _ ([], []))

theorem futurePostingsV2_within (hoffer : offerOf input.schedule input.choice = .ok (some terms))
    (h : OneCurrencyBeyond input terms periods) :
    futurePostingsV2 (input.withPeriods periods) = futurePostingsV2 (input.withPeriods (input.within terms periods)) := by
  refine (congrArg (· >>= _) (futurePostingsV1_within hoffer h)).trans (bind_congr fun plan => ?_)
  exact congrArg (fun history : Except ScheduleTrustError (List ScheduledPosting) => history.mapError _ >>= _) history_within

end Beyond

/-- A plan expects payments after the day of the report, and up to the last day of the scenario unless the bond is held
    and pays a coupon after that day. The coupons beyond both days do not matter for an offer, as long as what is known of
    them is in the currency of the report. -/
theorem horizon_respected (input : CashflowInput) :
    (∀ plan, futurePostingsV1 input = .ok plan ∨ futurePostingsV2 input = .ok plan → ∀ posting ∈ plan.postings,
      input.asOf < posting.date ∧
        ((input.choice = .holdToMaturity → posting.kind = .coupon → ∀ period ∈ input.schedule.periods,
            input.asOf < period.paymentDate → period.paymentDate ≤ plan.terminalDate) →
          posting.date ≤ plan.terminalDate)) ∧
    ∀ terms periods, offerOf input.schedule input.choice = .ok (some terms) →
      input.within terms periods = input.within terms input.schedule.periods →
      OneCurrencyBeyond input terms periods → OneCurrencyBeyond input terms input.schedule.periods →
      futurePostingsV1 (input.withPeriods periods) = futurePostingsV1 input ∧
        futurePostingsV2 (input.withPeriods periods) = futurePostingsV2 input := by
  refine ⟨fun plan h posting hp => ?_, fun terms periods hoffer hsame hnew hold => ?_⟩
  · rcases h with h | h
    · exact days_of_ok h hp
    · obtain ⟨first, hfirst, hpostings, hterminal⟩ := futurePostingsV2_ok h
      rw [hpostings] at hp
      rw [hterminal]
      exact days_of_ok hfirst hp
  · have hv1 := futurePostingsV1_within hoffer hnew
    have hv2 := futurePostingsV2_within hoffer hnew
    rw [hsame] at hv1 hv2
    exact ⟨hv1.trans (futurePostingsV1_within hoffer hold).symm, hv2.trans (futurePostingsV2_within hoffer hold).symm⟩

/-! ### A coupon after the end -/

/-- A bond of a hundred roubles, repaid on the twentieth day, with a put on the tenth, and the given coupon periods. -/
def endingOnTheTwentieth (periods : List AccrualPeriod) : FullSchedule where
  principalReturns := [⟨⟨20⟩, .hundred⟩]
  initialPrincipal := some ⟨.hundred, .rub⟩
  completeness := .validated
  periods := periods
  offerWindows := [⟨⟨1⟩, .holderPut, ⟨10⟩, some .hundred⟩]
  defaultFlags := some ⟨false, false⟩
  currencyRoles := some ⟨.rub, .rub, .rub⟩

def endingInputOf (periods : List AccrualPeriod) (choice : OfferChoice) (asOf : Date) : CashflowInput :=
  ⟨endingOnTheTwentieth periods, .one, choice, asOf, .rub⟩

/-- A coupon of one unit of a currency, paid on the thirtieth day. -/
def lateCoupon (currency : CurrencyCode) : AccrualPeriod := ⟨⟨11⟩, ⟨30⟩, none, some ⟨.one, currency⟩⟩

/-- With the offer, a coupon that is not known and would be paid on the thirtieth day changes nothing. -/
theorem horizon_respected_put : ∃ plan,
    futurePostingsV1 (endingInputOf [⟨⟨11⟩, ⟨30⟩, none, none⟩] (.exerciseAtOffer ⟨1⟩) ⟨1⟩) = .ok plan ∧
      plan.postings ≠ [] ∧ (∀ posting ∈ plan.postings, ⟨1⟩ < posting.date ∧ posting.date ≤ plan.terminalDate) ∧
      futurePostingsV1 (endingInputOf [] (.exerciseAtOffer ⟨1⟩) ⟨1⟩) = .ok plan := by
  obtain ⟨plan, h⟩ := exists_ok (show (futurePostingsV1
    (endingInputOf [⟨⟨11⟩, ⟨30⟩, none, none⟩] (.exerciseAtOffer ⟨1⟩) ⟨1⟩)).isOk = true by decide +kernel)
  have hsome := read_of_ok h (fun plan => plan.postings.isEmpty) (b := false) (by decide +kernel)
  obtain ⟨hdays, hsame⟩ := horizon_respected (endingInputOf [⟨⟨11⟩, ⟨30⟩, none, none⟩] (.exerciseAtOffer ⟨1⟩) ⟨1⟩)
  refine ⟨plan, h, fun hnil => ?_, fun posting hp => ?_, ?_⟩
  · rw [hnil] at hsome
    cases hsome
  · obtain ⟨hafter, hterminal⟩ := hdays plan (.inl h) posting hp
    exact ⟨hafter, hterminal fun hchoice => nomatch hchoice⟩
  · refine (hsame ⟨⟨1⟩, .holderPut, ⟨10⟩, some .hundred⟩ [] rfl (by decide) ?_ ?_).1.trans h
    · exact fun period hperiod => absurd hperiod List.not_mem_nil
    · intro period hperiod _ coupon hcoupon
      rw [List.mem_singleton.mp hperiod] at hcoupon
      cases hcoupon

/-- Three coupons after the last day. Held, the bond is expected to pay it ten days after its last repayment. With the offer,
    one in dollars refuses the plan, and one that is due by the day of the report is in the past of the plan. -/
theorem late_coupons :
    (∃ plan, futurePostingsV1 (endingInputOf [lateCoupon .rub] .holdToMaturity ⟨1⟩) = .ok plan ∧
      plan.terminalDate = ⟨20⟩ ∧ plan.postings.map ExpectedPosting.date = [⟨20⟩, ⟨30⟩]) ∧
    (futurePostingsV1 (endingInputOf [lateCoupon .usd] (.exerciseAtOffer ⟨1⟩) ⟨1⟩)).isOk = false ∧
    (futurePostingsV1 (endingInputOf [] (.exerciseAtOffer ⟨1⟩) ⟨1⟩)).isOk = true ∧
    futurePostingsV1 (endingInputOf [lateCoupon .rub] (.exerciseAtOffer ⟨1⟩) ⟨40⟩) ≠
      futurePostingsV1 (endingInputOf [] (.exerciseAtOffer ⟨1⟩) ⟨40⟩) := by
  refine ⟨?_, by decide +kernel, by decide +kernel, by decide +kernel⟩
  obtain ⟨plan, h⟩ := exists_ok
    (show (futurePostingsV1 (endingInputOf [lateCoupon .rub] .holdToMaturity ⟨1⟩)).isOk = true by decide +kernel)
  exact ⟨plan, h, read_of_ok h CashflowPlan.terminalDate (by decide +kernel),
    read_of_ok h (fun plan => plan.postings.map ExpectedPosting.date) (by decide +kernel)⟩

end Cashflow
end Iaam
