import Iaam.Theorems.CashflowHorizon

/-! A bond that is held to its end: every payment of the schedule is past or expected, and not both. The two versions of the
plan differ in what they say about the past alone. -/

namespace Iaam
namespace Cashflow
open Bond Outcome Pairs

/-! ### The two versions -/

def ScheduledPosting.withoutEntitlement (posting : ScheduledPosting) : ScheduledPosting := { posting with entitlement := none }

def CashflowPlan.withoutEntitlement (plan : CashflowPlan) : CashflowPlan :=
  { plan with past := plan.past.map ScheduledPosting.withoutEntitlement }

section Versions
variable {input : CashflowInput} {original : PerUnitAmount} {offer : Option OfferWindowTerms} {plan : CashflowPlan}

/-- What allows a plan allows the history. -/
theorem notDeclared_of_notDefaulted {flags : Option DefaultFlags} (h : notDefaulted flags = .ok ()) :
    notDeclared flags = .ok () := by
  cases flags with
  | none => cases h
  | some flags =>
    simp only [notDefaulted] at h
    simp only [notDeclared]
    split at h
    · cases h
    · next hdeclared => rw [if_neg hdeclared]

/-- The payments of the schedule that are due, as the history has them. -/
def historyOf (schedule : FullSchedule) (asOf : Date) : List ScheduledPosting :=
  ((schedule.periods.filter fun period => period.paymentDate ≤ asOf).map fun period =>
      ⟨period.paymentDate, .coupon, period.recordDate⟩) ++
    (schedule.principalReturns.filter fun item => item.repaymentDate ≤ asOf).map fun item =>
      ⟨item.repaymentDate, .principalReturn, none⟩

theorem historicalSchedulePostings_of_ok (h : futurePostingsV1 input = .ok plan) :
    ∃ past, historicalSchedulePostings input.schedule input.asOf = .ok past ∧
      past.Perm (historyOf input.schedule input.asOf) := by
  obtain ⟨_, hcomplete, h⟩ := bind_ok.mp h
  obtain ⟨_, hflags, h⟩ := bind_ok.mp h
  rw [historicalSchedulePostings, mapError_ok.mp hcomplete, notDeclared_of_notDefaulted hflags]
  exact ⟨_, rfl, List.perm_insertionSort _ _⟩

/-- Without the entitlements, the history is the past of the plan but for the offer. -/
theorem map_historyOf :
    (historyOf input.schedule input.asOf).map ScheduledPosting.withoutEntitlement ++
        ((offer.toList.map (settlementItem input original)).filter fun item => item.due input.asOf).map Item.scheduled =
      ((itemsOf input original offer).filter fun item => item.due input.asOf).map Item.scheduled := by
  simp only [historyOf, itemsOf, List.map_append, List.filter_append, List.filter_map, List.map_map, List.append_assoc]
  rfl

theorem filter_settlements :
    (((itemsOf input original offer).filter fun item => item.due input.asOf).map Item.scheduled).filter
        (fun posting => posting.kind = .offerSettlement) =
      ((offer.toList.map (settlementItem input original)).filter fun item => item.due input.asOf).map Item.scheduled := by
  have hhistory : ((historyOf input.schedule input.asOf).map ScheduledPosting.withoutEntitlement).filter
      (fun posting => posting.kind = .offerSettlement) = [] := by
    refine List.filter_eq_nil_iff.mpr fun posting hposting => ?_
    obtain ⟨item, hitem, rfl⟩ := List.mem_map.mp hposting
    rcases List.mem_append.mp hitem with hitem | hitem <;> obtain ⟨_, -, rfl⟩ := List.mem_map.mp hitem <;>
      simp [ScheduledPosting.withoutEntitlement]
  rw [← map_historyOf, List.filter_append, hhistory, List.nil_append]
  refine List.filter_eq_self.mpr fun posting hposting => ?_
  obtain ⟨item, hitem, rfl⟩ := List.mem_map.mp hposting
  obtain ⟨terms, -, rfl⟩ := List.mem_map.mp (List.mem_of_mem_filter hitem)
  rfl

theorem sorted_withoutEntitlement (postings : List ScheduledPosting) :
    ((postings.insertionSort fun l r => toLex (l.date, l.kind) ≤ toLex (r.date, r.kind)).map
      ScheduledPosting.withoutEntitlement).Pairwise fun l r => l.key ≤ r.key := by
  have htotal : Std.Total fun l r : ScheduledPosting => toLex (l.date, l.kind) ≤ toLex (r.date, r.kind) :=
    ⟨fun l r => le_total (toLex (l.date, l.kind)) (toLex (r.date, r.kind))⟩
  have htrans : IsTrans ScheduledPosting fun l r => toLex (l.date, l.kind) ≤ toLex (r.date, r.kind) :=
    ⟨fun _ _ _ => le_trans⟩
  refine List.pairwise_map.mpr ((List.pairwise_insertionSort _ postings).imp fun {l r} hle => ?_)
  rcases Prod.Lex.toLex_le_toLex.mp hle with hlt | ⟨hdate, hkind⟩
  · exact Prod.Lex.toLex_le_toLex.mpr (.inl hlt)
  · refine Prod.Lex.toLex_le_toLex.mpr (.inr ⟨hdate, Prod.Lex.toLex_le_toLex.mpr ?_⟩)
    rcases hkind.lt_or_eq with hlt | heq
    · exact .inl hlt
    · exact .inr ⟨heq, le_rfl⟩

/-- The second version says what the first one says, and who was entitled to the payments of the past. -/
theorem map_futurePostingsV2 (input : CashflowInput) :
    (futurePostingsV2 input).map CashflowPlan.withoutEntitlement = futurePostingsV1 input := by
  cases h : futurePostingsV1 input with
  | error e =>
    rw [futurePostingsV2, h]
    rfl
  | ok plan =>
    obtain ⟨original, offer, hplanned⟩ := planned_of_ok h
    obtain ⟨past, hpast, hperm⟩ := historicalSchedulePostings_of_ok h
    have hsettlements : (plan.past.filter fun posting => posting.kind = .offerSettlement).Perm
        (((offer.toList.map (settlementItem input original)).filter fun item => item.due input.asOf).map Item.scheduled) := by
      rw [← filter_settlements, hplanned.past]
      exact (List.perm_insertionSort _ _).filter _
    have herased : (((offer.toList.map (settlementItem input original)).filter fun item => item.due input.asOf).map
        Item.scheduled).map ScheduledPosting.withoutEntitlement =
          ((offer.toList.map (settlementItem input original)).filter fun item => item.due input.asOf).map Item.scheduled := by
      rw [List.map_map]
      rfl
    have hmixed : ((past ++ plan.past.filter fun posting => posting.kind = .offerSettlement).map
        ScheduledPosting.withoutEntitlement).Perm
          (((itemsOf input original offer).filter fun item => item.due input.asOf).map Item.scheduled) := by
      rw [List.map_append, ← map_historyOf, ← herased]
      exact (hperm.map _).append (hsettlements.map _)
    have hsame : ((past ++ plan.past.filter fun posting => posting.kind = .offerSettlement).insertionSort
        (fun l r => toLex (l.date, l.kind) ≤ toLex (r.date, r.kind))).map ScheduledPosting.withoutEntitlement = plan.past := by
      refine eq_of_sorted (((List.perm_insertionSort _ _).map _).trans (hmixed.trans ?_)) (sorted_withoutEntitlement _) ?_
      · rw [hplanned.past]
        exact (List.perm_insertionSort _ _).symm
      · rw [hplanned.past]
        exact sorted_byKey id _
    rw [futurePostingsV2, h, Outcome.ok_bind, hpast]
    refine congrArg Except.ok ?_
    exact congrArg (fun past => { plan with past := past }) hsame

end Versions

/-! ### Every payment once -/

section Held
variable {input : CashflowInput} {original : PerUnitAmount} {plan : CashflowPlan}

/-- What is not past is still to come. -/
theorem ahead_of_held {item : Item} (hitem : item ∈ itemsOf input original none) :
    item.ahead input.asOf = !item.due input.asOf := by
  have hcounts : item.counts = true := by
    rcases List.mem_append.mp hitem with hitem | hitem
    · obtain ⟨_, -, rfl⟩ := List.mem_map.mp hitem
      rfl
    · rcases List.mem_append.mp hitem with hitem | hitem
      · obtain ⟨_, -, rfl⟩ := List.mem_map.mp hitem
        rfl
      · cases hitem
  rw [Item.ahead, hcounts, Bool.and_true]

theorem perm_of_held (h : Planned input original none plan) :
    ((plan.past.map fun posting => (posting.date, posting.kind)) ++
        plan.postings.map fun posting => (posting.date, posting.kind)).Perm
      ((input.schedule.periods.map fun period => (period.paymentDate, PostingKind.coupon)) ++
        input.schedule.principalReturns.map fun item => (item.repaymentDate, PostingKind.principalReturn)) := by
  have hpast : (plan.past.map fun posting => (posting.date, posting.kind)).Perm
      (((itemsOf input original none).filter fun item => item.due input.asOf).map fun item => (item.date, item.kind)) := by
    rw [h.past]
    refine ((List.perm_insertionSort _ _).map _).trans (.of_eq ?_)
    rw [List.map_map]
    rfl
  have hahead := h.expected.map_perm (f := fun posting => (posting.date, posting.kind))
    (g := fun item : Item => (item.date, item.kind)) fun hm => by rw [hm.date, hm.kind]
  rw [List.filter_congr fun item hitem => ahead_of_held hitem] at hahead
  refine (hpast.append hahead).trans ?_
  rw [← List.map_append]
  refine ((List.filter_append_perm (fun item : Item => item.due input.asOf) _).map _).trans (.of_eq ?_)
  rw [itemsOf, List.map_append, List.map_append, List.map_map, List.map_map]
  exact congrArg _ (List.append_nil _)

theorem sum_of_whole {schedule : FullSchedule} (h : sharesAreWhole schedule = .ok ()) :
    (schedule.principalReturns.map fun item => item.sharePercent.val).sum = 100 := by
  obtain ⟨total, htotal, h⟩ := bind_ok.mp h
  have hsum := (Runs.foldlM_ok.mp (mapError_ok.mp htotal)).adds Dec.val Dec.val fun _ hstep => Dec.checkedAdd_ok.mp hstep
  rw [List.map_map] at hsum
  split at h
  · cases h
  · next hwhole =>
    rw [not_not.mp hwhole] at hsum
    exact ((zero_add _).symm.trans hsum.symm).trans rfl

/-- The principal of the past repayments and of those expected. -/
theorem principal_of_held (h : Planned input original none plan) :
    ((input.schedule.principalReturns.filter fun item => item.repaymentDate ≤ input.asOf).map fun item =>
        shareOf input original item.sharePercent).sum +
      ((plan.postings.filter fun posting => posting.kind = .principalReturn).map fun posting => posting.amount.value.val).sum =
        original.value.val * input.quantity.val := by
  have hchosen := h.expected.filter (p := fun posting => posting.kind = .principalReturn)
    (q := fun item => item.kind = .principalReturn) fun hm => by rw [hm.kind]
  have hperm := hchosen.map_perm (f := fun posting => posting.amount.value.val) (g := Item.principal) fun hm =>
    hm.1.principal fun hcoupon => by
      have hkind := of_decide_eq_true hm.2
      rw [hcoupon] at hkind
      cases hkind
  have hcoupons : ((input.schedule.periods.map (couponItem none)).filter fun item : Item =>
      decide (item.kind = .principalReturn) && item.ahead input.asOf) = [] := by
    refine List.filter_eq_nil_iff.mpr fun item hitem => ?_
    obtain ⟨_, -, rfl⟩ := List.mem_map.mp hitem
    simp [couponItem]
  have hreturns : ((fun item : Item => decide (item.kind = .principalReturn) && item.ahead input.asOf) ∘
      returnItem input original none) = fun item => !decide (item.repaymentDate ≤ input.asOf) :=
    funext fun _ => Bool.and_true _
  have hsplit := ((List.filter_append_perm (fun item : Bond.PrincipalReturn => decide (item.repaymentDate ≤ input.asOf))
    input.schedule.principalReturns).map fun item => shareOf input original item.sharePercent).sum_eq
  rw [List.map_append, List.sum_append, sum_shareOf input original input.schedule.principalReturns, sum_of_whole h.whole]
    at hsplit
  rw [hperm.sum_eq, List.filter_filter, itemsOf, List.filter_append, Option.map_none, hcoupons, Option.toList_none,
    List.map_nil, List.append_nil, List.nil_append, List.filter_map, hreturns, List.map_map]
  exact hsplit.trans (by ring)

end Held

/-- A bond of a thousand roubles with a coupon and half of the principal due on the fifth day, and as much on the ninth. -/
def twoHalves : FullSchedule where
  principalReturns := [⟨⟨5⟩, .ofInt64 50⟩, ⟨⟨9⟩, .ofInt64 50⟩]
  initialPrincipal := some ⟨.ofInt64 1000, .rub⟩
  completeness := .validated
  periods := [⟨⟨1⟩, ⟨5⟩, some ⟨4⟩, some ⟨.one, .rub⟩⟩, ⟨⟨5⟩, ⟨9⟩, some ⟨8⟩, some ⟨.one, .rub⟩⟩]
  offerWindows := []
  defaultFlags := some ⟨false, false⟩
  currencyRoles := some ⟨.rub, .rub, .rub⟩

end Cashflow
end Iaam
