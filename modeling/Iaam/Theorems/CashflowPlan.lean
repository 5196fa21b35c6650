import Iaam.Cashflow
import Iaam.Lib.Pairs
import Iaam.Lib.Runs

/-! What a plan of payments consists of.

Every payment of the schedule is an item with a day. What is due by the day of the report is past, and of what comes after it
the plan counts what the scenario counts. -/

namespace Iaam
namespace Cashflow
open Bond Outcome Pairs Runs

/-! ### Items -/

/-- A payment of the schedule: its day, whether the scenario counts it, and the principal it pays. -/
structure Item where
  date : Date
  kind : PostingKind
  counts : Bool
  principal : ℚ

/-- The posting is that of the item. -/
structure Meets (posting : ExpectedPosting) (item : Item) : Prop where
  date : posting.date = item.date
  kind : posting.kind = item.kind
  principal : item.kind ≠ .coupon → posting.amount.value.val = item.principal

def couponItem (cutoff : Option Date) (period : AccrualPeriod) : Item :=
  ⟨period.paymentDate, .coupon, cutoff.all fun date => period.paymentDate ≤ date, 0⟩

/-- The share of the principal of the position, in percent. -/
def shareOf (input : CashflowInput) (original : PerUnitAmount) (percent : Dec) : ℚ :=
  original.value.val * input.quantity.val * (percent.val / 100)

theorem sum_shareOf (input : CashflowInput) (original : PerUnitAmount) (items : List Bond.PrincipalReturn) :
    (items.map fun item => shareOf input original item.sharePercent).sum =
      original.value.val * input.quantity.val * ((items.map fun item => item.sharePercent.val).sum / 100) := by
  induction items with
  | nil => simp
  | cons item items ih =>
    rw [List.map_cons, List.map_cons, List.sum_cons, List.sum_cons, ih, shareOf]
    ring

def returnItem (input : CashflowInput) (original : PerUnitAmount) (cutoff : Option Date) (item : Bond.PrincipalReturn) :
    Item :=
  ⟨item.repaymentDate, .principalReturn, cutoff.all fun date => item.repaymentDate < date,
    shareOf input original item.sharePercent⟩

def settlementItem (input : CashflowInput) (original : PerUnitAmount) (terms : OfferWindowTerms) : Item :=
  ⟨terms.executionDate, .offerSettlement, true, shareOf input original (terms.pricePercent.getD .zero)⟩

def itemsOf (input : CashflowInput) (original : PerUnitAmount) (offer : Option OfferWindowTerms) : List Item :=
  let cutoff := offer.map OfferWindowTerms.executionDate
  input.schedule.periods.map (couponItem cutoff) ++
    (input.schedule.principalReturns.map (returnItem input original cutoff) ++
      offer.toList.map (settlementItem input original))

/-- What is due by a day. -/
def Item.due (asOf : Date) (item : Item) : Bool := item.date ≤ asOf

/-- What is still to come, and counted. -/
def Item.ahead (asOf : Date) (item : Item) : Bool := !item.due asOf && item.counts

def Item.scheduled (item : Item) : ScheduledPosting := ⟨item.date, item.kind, none⟩

/-! ### A step of the plan -/

/-- What an item adds to the postings. -/
inductive Adds (asOf : Date) (postings : Postings) (item : Item) : Postings → Prop
  | past : item.due asOf = true → Adds asOf postings item (postings.1, postings.2 ++ [item.scheduled])
  | ahead {posting : ExpectedPosting} : item.ahead asOf = true → Meets posting item →
      Adds asOf postings item (postings.1 ++ [posting], postings.2)
  | beyond : item.due asOf = false → item.counts = false → Adds asOf postings item postings

section Steps
variable {input : CashflowInput} {original : PerUnitAmount} {cutoff : Option Date} {postings postings' : Postings}

theorem amountForPerUnit_ok {value : PerUnitAmount} {quantity : Quantity} {factor : Dec} {amount : CalcMoney}
    (h : amountForPerUnit value quantity factor = .ok amount) :
    amount.value.val = value.value.val * quantity.val * factor.val := by
  obtain ⟨position, hposition, h⟩ := bind_ok.mp h
  obtain ⟨total, htotal, h⟩ := bind_ok.mp h
  cases h
  have hposition := Dec.checkedMul_ok.mp (mapError_ok.mp hposition)
  have htotal := Dec.checkedMul_ok.mp (mapError_ok.mp htotal)
  rw [htotal, hposition]

/-- A percentage of the initial principal of the position. -/
theorem amountForShare_ok {percent share : Dec} {amount : CalcMoney}
    (hshare : (percent.checkedDiv .hundred).mapError CashflowError.numeric = .ok share)
    (h : amountForPerUnit original input.quantity share = .ok amount) :
    amount.value.val = shareOf input original percent := by
  have hshare := (Dec.checkedDiv_ok.mp (mapError_ok.mp hshare)).2
  rw [amountForPerUnit_ok h, hshare]
  rfl

theorem due_true {asOf : Date} {item : Item} (h : item.date ≤ asOf) : item.due asOf = true := decide_eq_true h

theorem due_false {asOf : Date} {item : Item} (h : ¬item.date ≤ asOf) : item.due asOf = false := decide_eq_false h

theorem addCoupon_adds {period : AccrualPeriod} (h : addCoupon input cutoff postings period = .ok postings') :
    Adds input.asOf postings (couponItem cutoff period) postings' := by
  simp only [addCoupon] at h
  split at h
  · next hdue =>
    cases h
    exact .past (due_true hdue)
  · next hdue =>
    split at h
    · next hcounts =>
      cases hcoupon : period.couponPerUnit with
      | none =>
        rw [hcoupon] at h
        cases h
      | some coupon =>
        rw [hcoupon] at h
        obtain ⟨amount, -, h⟩ := bind_ok.mp h
        cases h
        refine .ahead ?_ ⟨rfl, rfl, fun hne => absurd rfl hne⟩
        exact Bool.and_eq_true_iff.mpr ⟨by rw [due_false hdue]; rfl, hcounts⟩
    · next hcounts =>
      cases h
      exact .beyond (due_false hdue) (Bool.eq_false_iff.mpr hcounts)

theorem addReturn_adds {item : Bond.PrincipalReturn} (h : addReturn input original cutoff postings item = .ok postings') :
    Adds input.asOf postings (returnItem input original cutoff item) postings' := by
  simp only [addReturn] at h
  split at h
  · next hdue =>
    cases h
    exact .past (due_true hdue)
  · next hdue =>
    split at h
    · next hcounts =>
      obtain ⟨share, hshare, h⟩ := bind_ok.mp h
      obtain ⟨amount, hamount, h⟩ := bind_ok.mp h
      cases h
      refine .ahead ?_ ⟨rfl, rfl, fun _ => amountForShare_ok hshare hamount⟩
      exact Bool.and_eq_true_iff.mpr ⟨by rw [due_false hdue]; rfl, hcounts⟩
    · next hcounts =>
      cases h
      exact .beyond (due_false hdue) (Bool.eq_false_iff.mpr hcounts)

theorem addSettlement_adds {terms : OfferWindowTerms}
    (h : addSettlement input original (some terms) postings = .ok postings') :
    Adds input.asOf postings (settlementItem input original terms) postings' := by
  simp only [addSettlement] at h
  cases hprice : terms.pricePercent with
  | none =>
    rw [hprice] at h
    cases h
  | some price =>
    rw [hprice] at h
    obtain ⟨share, hshare, h⟩ := bind_ok.mp h
    obtain ⟨settlement, hsettlement, h⟩ := bind_ok.mp h
    have hamount := amountForShare_ok hshare hsettlement
    split at h
    · next hdue =>
      cases h
      exact .past (due_true hdue)
    · next hdue =>
      cases h
      refine .ahead ?_ ⟨rfl, rfl, fun _ => ?_⟩
      · exact Bool.and_eq_true_iff.mpr ⟨by rw [due_false hdue]; rfl, rfl⟩
      · change settlement.value.val = shareOf input original (terms.pricePercent.getD .zero)
        rw [hprice, hamount]
        rfl

end Steps

/-! ### A run over the items -/

section Run
variable {asOf : Date} {items : List Item} {postings postings' : Postings}

theorem past_of_run (h : Run (Adds asOf) postings items postings') :
    postings'.2 = postings.2 ++ (items.filter fun item => item.due asOf).map Item.scheduled := by
  induction h with
  | nil => exact (List.append_nil _).symm
  | @cons s t u item items hstep _ ih =>
    rw [ih]
    rcases hstep with hdue | ⟨hahead, -⟩ | ⟨hdue, -⟩
    · rw [List.filter_cons_of_pos hdue, List.map_cons, List.append_assoc]
      rfl
    · have hdue : ¬item.due asOf = true := by
        rw [Item.ahead, Bool.and_eq_true, Bool.not_eq_true'] at hahead
        rw [hahead.1]
        exact Bool.false_ne_true
      rw [List.filter_cons_of_neg hdue]
    · rw [List.filter_cons_of_neg (by rw [hdue]; exact Bool.false_ne_true)]

theorem expected_of_run (h : Run (Adds asOf) postings items postings') :
    ∃ new, postings'.1 = postings.1 ++ new ∧ List.Forall₂ Meets new (items.filter fun item => item.ahead asOf) := by
  induction h with
  | nil => exact ⟨[], (List.append_nil _).symm, .nil⟩
  | @cons s t u item items hstep _ ih =>
    obtain ⟨new, hnew, hmeets⟩ := ih
    rcases hstep with hdue | @⟨posting, hahead, hmeet⟩ | ⟨hdue, hcounts⟩
    · refine ⟨new, hnew, ?_⟩
      rw [List.filter_cons_of_neg]
      · exact hmeets
      · simp [Item.ahead, hdue]
    · refine ⟨posting :: new, ?_, ?_⟩
      · rw [hnew, List.append_assoc]
        rfl
      · rw [List.filter_cons_of_pos hahead]
        exact .cons hmeet hmeets
    · refine ⟨new, hnew, ?_⟩
      rw [List.filter_cons_of_neg]
      · exact hmeets
      · simp [Item.ahead, hcounts]

end Run

/-! ### The order of the past -/

theorem key_injective : Function.Injective ScheduledPosting.key := by
  intro p q h
  obtain ⟨hdate, h⟩ := Prod.mk.inj (toLex.injective h)
  obtain ⟨hkind, hentitlement⟩ := Prod.mk.inj (toLex.injective h)
  cases p
  cases q
  cases hdate
  cases hkind
  cases hentitlement
  rfl

theorem date_le_of_key {p q : ScheduledPosting} (h : p.key ≤ q.key) : p.date ≤ q.date := by
  rcases Prod.Lex.toLex_le_toLex.mp h with hlt | ⟨heq, -⟩
  · exact hlt.le
  · exact heq.le

section Sorted
variable {γ : Type} (posting : γ → ScheduledPosting)

theorem sorted_byKey (xs : List γ) :
    (xs.insertionSort fun l r => (posting l).key ≤ (posting r).key).Pairwise fun l r => (posting l).key ≤ (posting r).key := by
  have htotal : Std.Total fun l r : γ => (posting l).key ≤ (posting r).key :=
    ⟨fun l r => le_total (posting l).key (posting r).key⟩
  have htrans : IsTrans γ fun l r => (posting l).key ≤ (posting r).key := ⟨fun _ _ _ => le_trans⟩
  exact List.pairwise_insertionSort _ xs

/-- Sorted lists with the same payments are equal. -/
theorem eq_of_sorted {ps qs : List ScheduledPosting} (hperm : ps.Perm qs) (hps : ps.Pairwise fun l r => l.key ≤ r.key)
    (hqs : qs.Pairwise fun l r => l.key ≤ r.key) : ps = qs :=
  List.Perm.eq_of_pairwise (fun _ _ _ _ hpq hqp => key_injective (le_antisymm hpq hqp)) hps hqs hperm

end Sorted

/-! ### The plan -/

theorem principalOf_ok {schedule : FullSchedule} {reportCurrency : CurrencyCode} {original : PerUnitAmount}
    (h : principalOf schedule reportCurrency = .ok original) : schedule.initialPrincipal = some original := by
  simp only [principalOf] at h
  split at h
  · cases h
  · next value hvalue =>
    split at h
    · cases h
    · cases h
      exact hvalue

/-- A plan made of the items of a scenario. -/
structure Planned (input : CashflowInput) (original : PerUnitAmount) (offer : Option OfferWindowTerms) (plan : CashflowPlan) :
    Prop where
  principal : principalOf input.schedule input.reportCurrency = .ok original
  whole : sharesAreWhole input.schedule = .ok ()
  chosen : offerOf input.schedule input.choice = .ok offer
  terminal : plan.terminalDate = terminalDateOf input.schedule input.asOf offer
  past : plan.past = (((itemsOf input original offer).filter fun item => item.due input.asOf).map
    Item.scheduled).insertionSort fun l r => l.key ≤ r.key
  expected : Paired Meets plan.postings ((itemsOf input original offer).filter fun item => item.ahead input.asOf)

theorem planned_of_ok {input : CashflowInput} {plan : CashflowPlan} (h : futurePostingsV1 input = .ok plan) :
    ∃ original offer, Planned input original offer plan := by
  obtain ⟨_, -, h⟩ := bind_ok.mp h
  obtain ⟨_, -, h⟩ := bind_ok.mp h
  obtain ⟨_, -, h⟩ := bind_ok.mp h
  obtain ⟨original, horiginal, h⟩ := bind_ok.mp h
  obtain ⟨_, hwhole, h⟩ := bind_ok.mp h
  obtain ⟨offer, hoffer, h⟩ := bind_ok.mp h
  obtain ⟨_, -, h⟩ := bind_ok.mp h
  obtain ⟨coupons, hcoupons, h⟩ := bind_ok.mp h
  obtain ⟨returns, hreturns, h⟩ := bind_ok.mp h
  obtain ⟨postings, hpostings, h⟩ := bind_ok.mp h
  cases h
  have hrun : Run (Adds input.asOf) ([], []) (itemsOf input original offer) postings := by
    refine Run.trans (Run.inputs _ addCoupon_adds (foldlM_ok.mp hcoupons))
      (Run.trans (Run.inputs _ addReturn_adds (foldlM_ok.mp hreturns)) ?_)
    cases offer with
    | none =>
      cases hpostings
      exact .nil _
    | some terms => exact .cons (addSettlement_adds hpostings) (.nil _)
  obtain ⟨new, hnew, hmeets⟩ := expected_of_run hrun
  refine ⟨original, offer, horiginal, hwhole, hoffer, rfl, ?_, new, ?_, hmeets⟩
  · rw [past_of_run hrun]
    rfl
  · rw [hnew]
    exact (List.perm_insertionSort _ _).symm

end Cashflow
end Iaam
