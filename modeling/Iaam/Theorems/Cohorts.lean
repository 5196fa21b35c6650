import Iaam.Lib.Runs
import Iaam.ZeroReinvestment

/-! The payments of a plan are shared out over the cohorts without a remainder. The quantity that is left and the amounts
that are left go down together: at the last cohort the quantity left is its own, so that its ratio is one and it takes what
is left, whatever the products before it were rounded to. -/

namespace Iaam
namespace ZeroReinvestment
open Outcome Cashflow

/-- The amount of the posting at a place of a list. -/
def amountAt (postings : List ExpectedPosting) (i : Nat) : ℚ := (postings[i]?.map fun p => p.amount.value.val).getD 0

/-- A posting without the number in its amount. -/
def frame (p : ExpectedPosting) : Date × PostingKind × CurrencyCode := (p.date, p.kind, p.amount.currency)

/-- Shares that make up the postings between them: one posting for each, and nothing left over. -/
structure Divides (shares : List (List ExpectedPosting)) (postings : List ExpectedPosting) : Prop where
  frames : ∀ share ∈ shares, share.map frame = postings.map frame
  sums : ∀ i, (shares.map fun share => amountAt share i).sum = amountAt postings i

section
variable {Refusal : Type} {ar : Rounded} {posting : ExpectedPosting} {part : ExpectedPosting × ExpectedPosting}
  {postings given left : List ExpectedPosting} {ratio quantity remaining total : Dec} {cohort : Cohort}
  {cohorts : List Cohort} {shares : List (Cohort × List ExpectedPosting)}

/-! ### One cohort -/

theorem splitPosting_ok (h : (splitPosting ar ratio posting : Computed Refusal _) = .ok part) :
    frame part.1 = frame posting ∧ frame part.2 = frame posting ∧
      part.1.amount.value.val + part.2.amount.value.val = posting.amount.value.val := by
  obtain ⟨value, -, h⟩ := bind_ok.mp h
  obtain ⟨rest, hrest, h⟩ := bind_ok.mp h
  cases h
  obtain ⟨-, hval, hcurrency⟩ := CalcMoney.checkedSub_ok.mp (mapError_ok.mp hrest)
  refine ⟨rfl, ?_, ?_⟩
  · simp only [frame, hcurrency]
  · rw [hval]
    exact add_sub_cancel _ _

/-- A ratio of one gives everything. -/
theorem splitPosting_one (hlawful : ar.Lawful) (h : (splitPosting ar .one posting : Computed Refusal _) = .ok part) :
    part.1.amount.value.val = posting.amount.value.val := by
  obtain ⟨value, hvalue, h⟩ := bind_ok.mp h
  obtain ⟨rest, -, h⟩ := bind_ok.mp h
  cases h
  rw [mapError_ok, hlawful.mul_one] at hvalue
  cases hvalue
  rfl

@[simp] theorem amountAt_zero (p : ExpectedPosting) (l : List ExpectedPosting) :
    amountAt (p :: l) 0 = p.amount.value.val := rfl

@[simp] theorem amountAt_succ (p : ExpectedPosting) (l : List ExpectedPosting) (i : Nat) :
    amountAt (p :: l) (i + 1) = amountAt l i := rfl

/-- The postings are split one by one, at one ratio. -/
theorem splitPostings_parts
    (h : (splitPostings ar postings quantity remaining : Computed Refusal _) = .ok (given, left)) :
    ∃ ratio parts, ar.div quantity remaining = .ok ratio ∧
      List.Forall₂ (fun p part => (splitPosting ar ratio p : Computed Refusal _) = .ok part) postings parts ∧
        given = parts.map Prod.fst ∧ left = parts.map Prod.snd := by
  obtain ⟨ratio, hratio, h⟩ := bind_ok.mp h
  obtain ⟨parts, hparts, h⟩ := bind_ok.mp h
  cases h
  exact ⟨ratio, parts, mapError_ok.mp hratio, Runs.mapM_ok.mp hparts, rfl, rfl⟩

/-- What a cohort is given and what is left make up the postings. -/
theorem splitPostings_ok (h : (splitPostings ar postings quantity remaining : Computed Refusal _) = .ok (given, left)) :
    given.map frame = postings.map frame ∧ left.map frame = postings.map frame ∧
      ∀ i, amountAt given i + amountAt left i = amountAt postings i := by
  obtain ⟨ratio, parts, -, hparts, rfl, rfl⟩ := splitPostings_parts h
  clear h
  induction hparts with
  | nil => exact ⟨rfl, rfl, fun i => by simp [amountAt]⟩
  | cons hpart _ ih =>
    obtain ⟨hgiven, hleft, hsum⟩ := splitPosting_ok hpart
    obtain ⟨hgivens, hlefts, hsums⟩ := ih
    refine ⟨congrArg₂ List.cons hgiven hgivens, congrArg₂ List.cons hleft hlefts, fun i => ?_⟩
    cases i with
    | zero => exact hsum
    | succ i => exact hsums i

/-- A cohort with the whole of the quantity that is left takes everything. -/
theorem splitPostings_self (hlawful : ar.Lawful) (hpos : 0 < quantity.val)
    (h : (splitPostings ar postings quantity quantity : Computed Refusal _) = .ok (given, left)) (i : Nat) :
    amountAt given i = amountAt postings i := by
  obtain ⟨ratio, parts, hratio, hparts, rfl, rfl⟩ := splitPostings_parts h
  clear h
  rw [hlawful.div_self quantity hpos] at hratio
  cases hratio
  induction hparts generalizing i with
  | nil => rfl
  | cons hpart _ ih =>
    cases i with
    | zero => exact splitPosting_one hlawful hpart
    | succ i => exact ih i

/-! ### All the cohorts -/

/-- The quantity of the cohorts together. -/
def quantityOf (cohorts : List Cohort) : ℚ := (cohorts.map fun c => c.quantity.val).sum

/-- While the quantity left is that of the cohorts left, the shares make up what is left of the postings. -/
theorem shareOut_ok (hlawful : ar.Lawful) (hne : cohorts ≠ []) (hpos : ∀ c ∈ cohorts, 0 < c.quantity.val)
    (hremaining : remaining.val = quantityOf cohorts)
    (h : (shareOut ar cohorts remaining postings : Computed Refusal _) = .ok shares) :
    shares.map Prod.fst = cohorts ∧ Divides (shares.map Prod.snd) postings := by
  induction cohorts generalizing remaining postings shares with
  | nil => exact absurd rfl hne
  | cons cohort cohorts ih =>
    obtain ⟨⟨given, left⟩, hsplit, h⟩ := bind_ok.mp h
    obtain ⟨rest, hrest, h⟩ := bind_ok.mp h
    obtain ⟨others, hothers, h⟩ := bind_ok.mp h
    cases h
    obtain ⟨hgiven, hleft, hsums⟩ := splitPostings_ok hsplit
    cases cohorts with
    | nil =>
      -- the last cohort: its quantity is the one that is left
      cases hothers
      have hself : remaining = cohort.quantity := Dec.ext_val (by rw [hremaining]; simp [quantityOf])
      subst hself
      have htakes := splitPostings_self hlawful (hpos cohort List.mem_cons_self) hsplit
      refine ⟨rfl, fun share hshare => ?_, fun i => ?_⟩
      · rcases List.mem_singleton.mp hshare with rfl
        exact hgiven
      · simp [htakes i]
    | cons next cohorts =>
      have hval : rest.val = quantityOf (next :: cohorts) := by
        rw [Dec.checkedSub_ok.mp (mapError_ok.mp hrest), hremaining]
        simp [quantityOf]
      obtain ⟨hcohorts, hframes, hdivides⟩ := ih (List.cons_ne_nil _ _)
        (fun c hc => hpos c (List.mem_cons_of_mem _ hc)) hval hothers
      refine ⟨congrArg (List.cons cohort) hcohorts, fun share hshare => ?_, fun i => ?_⟩
      · rcases List.mem_cons.mp hshare with rfl | hshare
        · exact hgiven
        · exact (hframes share hshare).trans hleft
      · rw [List.map_cons, List.map_cons, List.sum_cons, hdivides i]
        exact hsums i

/-- The sum of the quantities, as the loop starts with it. -/
theorem total_ok (h : cohorts.foldlM (fun (sum : Dec) cohort => sum.checkedAdd cohort.quantity) remaining = .ok total) :
    total.val = remaining.val + quantityOf cohorts := by
  refine Runs.Run.adds Dec.val (fun c : Cohort => c.quantity.val) (fun _ hstep => ?_) (Runs.foldlM_ok.mp h)
  exact Dec.checkedAdd_ok.mp hstep

theorem cohortShares_ok {plan : CashflowPlan} (hlawful : ar.Lawful) (hne : cohorts ≠ [])
    (hpos : ∀ c ∈ cohorts, 0 < c.quantity.val) (h : (cohortShares ar cohorts plan : Computed Refusal _) = .ok shares) :
    shares.map Prod.fst = cohorts ∧ Divides (shares.map Prod.snd) plan.postings := by
  obtain ⟨total, htotal, h⟩ := bind_ok.mp h
  have hval : total.val = quantityOf cohorts := by
    rw [total_ok (mapError_ok.mp htotal), Dec.zero_val, zero_add]
  have hnotZero : ¬ total.isZero = true := by
    rw [Dec.isZero_iff, hval]
    refine ne_of_gt (List.sum_pos _ (fun q hq => ?_) (by simpa using hne))
    obtain ⟨c, hc, rfl⟩ := List.mem_map.mp hq
    exact hpos c hc
  rw [if_neg hnotZero] at h
  exact shareOut_ok hlawful hne hpos hval h

end

/-- Every posting of the plan is shared out in full over one or more cohorts, whatever the products are rounded to: a cohort
    has a posting for each one of the plan, the amounts sum to its amount, and so the last cohort has what the others left. -/
theorem lifetimeCohortMetrics_shares {Rate Refusal : Type} {ar : Rounded} (hlawful : ar.Lawful)
    {solver : Solver Rate Refusal} {cohorts : List Cohort} (hne : cohorts ≠ [])
    (hpos : ∀ c ∈ cohorts, 0 < c.quantity.val) {plan : CashflowPlan} {metrics : List (LifetimeCohortMetric Rate Refusal)}
    (h : lifetimeCohortMetrics ar solver cohorts plan = .ok metrics) :
    ∃ shares, (cohortShares ar cohorts plan : Computed Refusal _) = .ok shares ∧
      metrics = shares.map (fun share => lifetimeCohortMetric solver share.1 share.2 plan.terminalDate) ∧
      shares.map Prod.fst = cohorts ∧ Divides (shares.map Prod.snd) plan.postings ∧
      ∀ others last, shares.map Prod.snd = others ++ [last] → ∀ i,
        amountAt last i = amountAt plan.postings i - (others.map fun share => amountAt share i).sum := by
  obtain ⟨shares, hshares, h⟩ := bind_ok.mp h
  cases h
  obtain ⟨hcohorts, hdivides⟩ := cohortShares_ok hlawful hne hpos hshares
  refine ⟨shares, hshares, rfl, hcohorts, hdivides, fun others last hlast i => ?_⟩
  have hsum := hdivides.sums i
  rw [hlast, List.map_append, List.sum_append, List.map_singleton, List.sum_singleton] at hsum
  exact eq_sub_of_add_eq' hsum

/-! ### One plan -/

/-- Products and quotients that come out exactly, as those of halves do. -/
def exactly : Rounded := ⟨Dec.checkedMul, Dec.checkedDiv⟩

theorem exactly_lawful : exactly.Lawful where
  div_self x hx := by
    have hzero : ¬ x.isZero = true := by
      rw [Dec.isZero_iff]
      exact ne_of_gt hx
    change Dec.checkedDiv x x = _
    rw [Dec.checkedDiv, if_neg hzero, Dec.checked_ok, div_self (ne_of_gt hx), Dec.one_val]
  mul_one x := by
    rw [exactly, Dec.checkedMul_ok, Dec.one_val, mul_one]

/-- Not called where the price of a cohort is unknown. -/
def noRate : Solver Unit Unit := ⟨fun _ => .error (), ()⟩

def redemption : CashflowPlan := ⟨[⟨⟨100⟩, ⟨.hundred, .rub⟩, .principalReturn⟩], ⟨100⟩, []⟩

/-- Without a cohort the plan is computed, and its payment is given to nobody. -/
theorem redemption_without_cohorts :
    ¬ ∀ (cohorts : List Cohort) (plan : CashflowPlan) (metrics : List (LifetimeCohortMetric Unit Unit)),
      (∀ c ∈ cohorts, 0 < c.quantity.val) → lifetimeCohortMetrics exactly noRate cohorts plan = .ok metrics →
        ∃ shares, (cohortShares exactly cohorts plan : Computed Unit _) = .ok shares ∧
          Divides (shares.map Prod.snd) plan.postings := by
  intro hall
  obtain ⟨shares, hshares, hdivides⟩ := hall [] redemption [] (fun _ hc => nomatch hc) rfl
  cases (hshares : Except.ok [] = _)
  have hsum := hdivides.sums 0
  simp [redemption] at hsum

/-- Two cohorts of one security each. -/
def halves : List Cohort :=
  [⟨⟨1⟩, .one, .zero .rub, none, none, none⟩, ⟨⟨2⟩, .one, .zero .rub, none, none, none⟩]

theorem redemption_of_halves :
    ∃ metrics, lifetimeCohortMetrics exactly noRate halves redemption = .ok metrics ∧
      ∃ shares, (cohortShares exactly halves redemption : Computed Unit _) = .ok shares ∧
        metrics = shares.map (fun share => lifetimeCohortMetric noRate share.1 share.2 redemption.terminalDate) ∧
        shares.map Prod.fst = halves ∧ Divides (shares.map Prod.snd) redemption.postings ∧
        ∀ others last, shares.map Prod.snd = others ++ [last] → ∀ i,
          amountAt last i = amountAt redemption.postings i - (others.map fun share => amountAt share i).sum := by
  obtain ⟨metrics, h⟩ := exists_ok
    (show (lifetimeCohortMetrics exactly noRate halves redemption).isOk = true by decide +kernel)
  have hpos : ∀ c ∈ halves, 0 < c.quantity.val := by simp [halves]
  exact ⟨metrics, h, lifetimeCohortMetrics_shares exactly_lawful (List.cons_ne_nil _ _) hpos h⟩

end ZeroReinvestment
end Iaam
