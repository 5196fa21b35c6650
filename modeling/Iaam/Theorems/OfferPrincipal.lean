import Iaam.Lib.Totals
import Iaam.Theorems.CashflowPlan

/-! The principal that a put offer returns, next to the principal of the position. -/

namespace Iaam
namespace Cashflow
open Bond Outcome Pairs Runs

/-- The repayment comes before the settlement of the offer: on an earlier day, or on the same one if that is past. -/
def paidBefore (asOf execution : Date) (item : Bond.PrincipalReturn) : Bool :=
  item.repaymentDate < execution || (item.repaymentDate = execution && execution ≤ asOf)

/-- The percentage of the initial principal that is repaid before the settlement of the offer. -/
def percentBefore (input : CashflowInput) (execution : Date) : ℚ :=
  ((input.schedule.principalReturns.filter (paidBefore input.asOf execution)).map fun item => item.sharePercent.val).sum

/-- The principal that comes by the day of the offer: what is already repaid, what the plan expects, and the settlement,
    of which the plan says only the day when it is past. -/
def principalByOffer (input : CashflowInput) (original : PerUnitAmount) (terms : OfferWindowTerms) (plan : CashflowPlan) : ℚ :=
  ((input.schedule.principalReturns.filter fun item =>
      item.repaymentDate ≤ input.asOf && item.repaymentDate ≤ terms.executionDate).map fun item =>
        shareOf input original item.sharePercent).sum +
    ((plan.postings.filter fun posting => posting.kind ≠ .coupon && posting.date ≤ terms.executionDate).map fun posting =>
        posting.amount.value.val).sum +
    (if terms.executionDate ≤ input.asOf then shareOf input original (terms.pricePercent.getD .zero) else 0)

section Offer
variable {input : CashflowInput} {original : PerUnitAmount} {terms : OfferWindowTerms} {plan : CashflowPlan}

/-- The principal among the postings: the repayments between the day of the report and that of the offer, and the
    settlement if it is still to come. -/
theorem sum_postings (h : Planned input original (some terms) plan) :
    ((plan.postings.filter fun posting => posting.kind ≠ .coupon && posting.date ≤ terms.executionDate).map fun posting =>
        posting.amount.value.val).sum =
      ((input.schedule.principalReturns.filter fun item =>
        !decide (item.repaymentDate ≤ input.asOf) && decide (item.repaymentDate < terms.executionDate)).map fun item =>
          shareOf input original item.sharePercent).sum +
        (if terms.executionDate ≤ input.asOf then 0 else shareOf input original (terms.pricePercent.getD .zero)) := by
  have hchosen := h.expected.filter (p := fun posting => posting.kind ≠ .coupon && posting.date ≤ terms.executionDate)
    (q := fun item => item.kind ≠ .coupon && item.date ≤ terms.executionDate) fun hm => by rw [hm.date, hm.kind]
  have hperm := hchosen.map_perm (f := fun posting => posting.amount.value.val) (g := Item.principal) fun hm => by
    have hkind := (Bool.and_eq_true_iff.mp hm.2).1
    exact hm.1.principal (of_decide_eq_true hkind)
  rw [hperm.sum_eq, List.filter_filter, itemsOf, List.filter_append, List.filter_append, List.filter_map, List.filter_map,
    List.map_append, List.map_append, List.sum_append, List.sum_append, List.map_map, List.map_map]
  have hcoupons : input.schedule.periods.filter ((fun item : Item =>
      (decide (item.kind ≠ .coupon) && decide (item.date ≤ terms.executionDate)) && item.ahead input.asOf) ∘
        couponItem (some terms.executionDate)) = [] := by
    refine List.filter_eq_nil_iff.mpr fun period _ => ?_
    simp [couponItem]
  have hreturns : ∀ item : Bond.PrincipalReturn, ((fun item : Item =>
      (decide (item.kind ≠ .coupon) && decide (item.date ≤ terms.executionDate)) && item.ahead input.asOf) ∘
        returnItem input original (some terms.executionDate)) item =
          (!decide (item.repaymentDate ≤ input.asOf) && decide (item.repaymentDate < terms.executionDate)) := by
    intro item
    by_cases hbefore : item.repaymentDate < terms.executionDate
    · simp [returnItem, Item.ahead, Item.due, hbefore, hbefore.le]
    · simp [returnItem, Item.ahead, hbefore]
  have hsettlement : (((Option.toList (some terms)).map (settlementItem input original)).filter (fun item : Item =>
      (decide (item.kind ≠ .coupon) && decide (item.date ≤ terms.executionDate)) && item.ahead input.asOf)) =
        if terms.executionDate ≤ input.asOf then [] else [settlementItem input original terms] := by
    by_cases hdue : terms.executionDate ≤ input.asOf <;> simp [settlementItem, Item.ahead, Item.due, hdue]
  rw [Option.map_some, hcoupons, List.filter_congr fun item _ => hreturns item, hsettlement]
  by_cases hdue : terms.executionDate ≤ input.asOf <;> simp [hdue, Function.comp_def, returnItem, settlementItem]

/-- The principal that comes by the day of the offer, in percent of that of the position: what is repaid before, and the
    price of the offer. -/
theorem principalByOffer_eq (h : Planned input original (some terms) plan) :
    principalByOffer input original terms plan =
      original.value.val * input.quantity.val *
        ((percentBefore input terms.executionDate + (terms.pricePercent.getD .zero).val) / 100) := by
  have hsplits : Cut.Splits (paidBefore input.asOf terms.executionDate)
      (fun item => decide (item.repaymentDate ≤ input.asOf) && decide (item.repaymentDate ≤ terms.executionDate))
      (fun item => !decide (item.repaymentDate ≤ input.asOf) && decide (item.repaymentDate < terms.executionDate))
      input.schedule.principalReturns := by
    intro item _
    rcases lt_trichotomy item.repaymentDate terms.executionDate with hlt | heq | hgt
    · by_cases hpast : item.repaymentDate ≤ input.asOf <;> simp [paidBefore, hlt, hlt.le, hpast]
    · by_cases hpast : terms.executionDate ≤ input.asOf <;> simp [paidBefore, heq, hpast]
    · simp [paidBefore, hgt.not_gt, hgt.not_ge, hgt.ne']
  have hsum := Cut.sum_eq_add hsplits fun item => shareOf input original item.sharePercent
  rw [sum_shareOf input original (input.schedule.principalReturns.filter (paidBefore input.asOf terms.executionDate))]
    at hsum
  have hprice : shareOf input original (terms.pricePercent.getD .zero) =
      original.value.val * input.quantity.val * ((terms.pricePercent.getD .zero).val / 100) := rfl
  rw [principalByOffer, sum_postings h, percentBefore, add_div, mul_add, hsum, ← hprice]
  by_cases hdue : terms.executionDate ≤ input.asOf
  · rw [if_pos hdue, if_pos hdue, add_zero]
  · rw [if_neg hdue, if_neg hdue, add_zero, add_assoc]

end Offer

/-! ### A put at the face value -/

/-- A bond of a thousand roubles, half of it repaid on a given day, with a put at the face value on the tenth day. -/
def halfRepaidOn (day : Date) : FullSchedule where
  principalReturns := [⟨day, .ofInt64 50⟩, ⟨⟨100⟩, .ofInt64 50⟩]
  initialPrincipal := some ⟨.ofInt64 1000, .rub⟩
  completeness := .validated
  periods := []
  offerWindows := [⟨⟨1⟩, .holderPut, ⟨10⟩, some .hundred⟩]
  defaultFlags := some ⟨false, false⟩
  currencyRoles := some ⟨.rub, .rub, .rub⟩

def putInputOf (day : Date) : CashflowInput := ⟨halfRepaidOn day, .one, .exerciseAtOffer ⟨1⟩, ⟨1⟩, .rub⟩

end Cashflow
end Iaam
