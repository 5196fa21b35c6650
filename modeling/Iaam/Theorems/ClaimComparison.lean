import Iaam.Theorems.Comparison

/-! Two figures of a claim are compared without a tolerance. A difference that an amount cannot hold is shown as the end
of the range it lies beyond, and so is each of two changes that are compared. -/

namespace Iaam
namespace ClaimComparison
open Comparison

/-! ### Saturation -/

/-- Both lie at or beyond the same end of what an amount can hold. -/
def SameEnd (m n : Int) : Prop := (2 ^ 63 - 1 ≤ m ∧ 2 ^ 63 - 1 ≤ n) ∨ (m ≤ -2 ^ 63 ∧ n ≤ -2 ^ 63)

theorem saturate_raw_of_fits {n : Int} (h : FitsI64 n) : (PostedMinor.saturate n).raw = n :=
  congrArg PostedMinor.raw (saturate_raw ⟨n, h⟩)

theorem saturate_eq_iff {m n : Int} : PostedMinor.saturate m = .saturate n ↔ m = n ∨ SameEnd m n := by
  have hraw : PostedMinor.saturate m = .saturate n ↔
      max (-2 ^ 63) (min m (2 ^ 63 - 1)) = max (-2 ^ 63) (min n (2 ^ 63 - 1)) :=
    ⟨fun h => congrArg PostedMinor.raw h, fun h => PostedMinor.ext_raw h⟩
  rw [hraw, SameEnd]
  omega

/-! ### Judgements -/

/-- The outcome says whether the two figures are equal, and shows the figures and their difference when they are not. -/
structure JudgesMoney (field : String) (currency : CurrencyCode) (claimed observed : Int) (outcome : ClaimOutcome) :
    Prop where
  matched : outcome = .matched ↔ claimed = observed
  discrepant : claimed ≠ observed → ∃ d, outcome = .discrepant d ∧ d.field = field ∧
    d.claimed = .money (.saturate claimed) currency ∧ d.observed = .money (.saturate observed) currency ∧
    (FitsI64 claimed → FitsI64 observed → d.delta = .money (.saturate (claimed - observed)) currency)

/-- The same of quantities. A difference that is no decimal is shown as zero. -/
structure JudgesQuantity (claimed observed : Quantity) (outcome : ClaimOutcome) : Prop where
  matched : outcome = .matched ↔ claimed = observed
  discrepant : claimed ≠ observed → ∃ d, outcome = .discrepant d ∧ d.field = "quantity" ∧
    d.claimed = .quantity claimed ∧ d.observed = .quantity observed ∧
    ∃ delta : Quantity, d.delta = .quantity delta ∧
      delta.val = if |claimed.val - observed.val| ≤ decimalMax then claimed.val - observed.val else 0

section
variable {field : String} {currency : CurrencyCode} {point : BalancePoint} {excluded : Option ClaimValue}
  {outcome : ClaimOutcome}

/-- A difference within the range is the difference itself. -/
theorem JudgesMoney.delta {claimed observed : Int} {d : Discrepancy}
    (h : JudgesMoney field currency claimed observed (.discrepant d)) (hc : FitsI64 claimed) (ho : FitsI64 observed)
    (hd : FitsI64 (claimed - observed)) :
    ∃ delta : PostedMinor, d.delta = .money delta currency ∧ delta.raw = claimed - observed := by
  have hne : claimed ≠ observed := fun heq => by simpa using h.matched.mpr heq
  obtain ⟨d', heq, -, -, -, hdelta⟩ := h.discrepant hne
  cases heq
  exact ⟨_, hdelta hc ho, saturate_raw_of_fits hd⟩

/-- The name of a cause changes nothing else of the outcome. -/
theorem named_discrepant {d : Discrepancy} (h : outcome = .discrepant d) (point : BalancePoint)
    (excluded : Option ClaimValue) :
    ∃ reason, nameBoundaryReason outcome point excluded = .discrepant { d with reason } := by
  subst h
  simp only [nameBoundaryReason]
  split
  · exact ⟨_, rfl⟩
  · exact ⟨d.reason, rfl⟩

theorem named_matched : nameBoundaryReason outcome point excluded = .matched ↔ outcome = .matched := by
  cases outcome with
  | discrepant d =>
    obtain ⟨reason, hreason⟩ := named_discrepant (rfl : ClaimOutcome.discrepant d = _) point excluded
    rw [hreason]
    simp
  | matched | notComparable reason | excepted exception => rfl

theorem JudgesMoney.named {claimed observed : Int} (h : JudgesMoney field currency claimed observed outcome) :
    JudgesMoney field currency claimed observed (nameBoundaryReason outcome point excluded) := by
  refine ⟨named_matched.trans h.matched, fun hne => ?_⟩
  obtain ⟨d, hd, hfigures⟩ := h.discrepant hne
  obtain ⟨reason, hreason⟩ := named_discrepant hd point excluded
  exact ⟨_, hreason, hfigures⟩

theorem JudgesQuantity.named {claimed observed : Quantity} (h : JudgesQuantity claimed observed outcome) :
    JudgesQuantity claimed observed (nameBoundaryReason outcome point excluded) := by
  refine ⟨named_matched.trans h.matched, fun hne => ?_⟩
  obtain ⟨d, hd, hfigures⟩ := h.discrepant hne
  obtain ⟨reason, hreason⟩ := named_discrepant hd point excluded
  exact ⟨_, hreason, hfigures⟩

/-- Two figures, of which each is shown as what an amount can hold of it. -/
theorem judges_saturated {claimed observed : Int} (h : claimed = observed ∨ ¬ SameEnd claimed observed) :
    JudgesMoney field currency claimed observed
      (compareMoney field currency (.saturate claimed) (.saturate observed)) := by
  have hiff : PostedMinor.saturate claimed = .saturate observed ↔ claimed = observed := by
    rw [saturate_eq_iff]
    exact ⟨fun heq => heq.elim id fun hend => h.resolve_right fun hnot => hnot hend, .inl⟩
  refine ⟨?_, fun hne => ?_⟩
  · rw [← hiff]
    unfold compareMoney
    split
    · next heq => exact iff_of_true rfl heq
    · next hne => exact iff_of_false (by simp) hne
  · rw [compareMoney, if_neg fun heq => hne (hiff.mp heq)]
    refine ⟨_, rfl, rfl, rfl, rfl, fun hc ho => ?_⟩
    rw [PostedMinor.saturatingSub, saturate_raw_of_fits hc, saturate_raw_of_fits ho]

theorem judges_money (claimed observed : PostedMinor) :
    JudgesMoney field currency claimed.raw observed.raw (compareMoney field currency claimed observed) := by
  have hends : claimed.raw = observed.raw ∨ ¬ SameEnd claimed.raw observed.raw := by
    have hc := claimed.fits
    have ho := observed.fits
    simp only [FitsI64] at hc ho
    unfold SameEnd
    omega
  have h := @judges_saturated field currency _ _ hends
  rwa [saturate_raw, saturate_raw] at h

theorem judges_quantity (claimed observed : Quantity) :
    JudgesQuantity claimed observed (compareQuantity claimed observed) := by
  unfold compareQuantity
  split
  · next heq => exact ⟨iff_of_true rfl heq, fun hne => absurd heq hne⟩
  · next hne =>
    refine ⟨iff_of_false (by simp) hne, fun _ => ⟨_, rfl, rfl, rfl, rfl, _, rfl, ?_⟩⟩
    cases hsub : claimed.checkedSub observed with
    | ok delta =>
      have hval := Dec.checkedSub_ok.mp hsub
      rw [if_pos (hval ▸ delta.inRange)]
      exact hval
    | error e =>
      rw [if_neg fun hrange => ?_]
      · rfl
      · rw [show claimed.checkedSub observed = .ok ⟨_, hrange⟩ from Dec.checkedSub_ok.mpr rfl] at hsub
        cases hsub

end

/-! ### Claims -/

/-- The figures that a claim is judged by. A claim is not compared where nothing was seen, where a cash level or a holding
    rests on a start that nothing asserts and no earlier balance is stated, and where no tax is recorded. -/
def Judges (claim : ControlClaim) (t : ObservedTotals) (outcome : ClaimOutcome) : Prop :=
  if t.eventsSeen = 0 then outcome = .notComparable .noJournalCoverage
  else
    match claim with
    | .cashBalance currency amount point =>
      match t.cashAt point currency, decide (t.cashAnchor[currency]? = some .unasserted) with
      | some seen, true =>
        match t.cashBaseline[(⟨point, currency⟩ : BaselineKey)]? with
        | none => outcome = .notComparable .openingNotAsserted
        | some stated =>
          let claimed := amount.raw - stated.claimed.raw
          let observed := seen.raw - stated.observed.raw
          claimed = observed ∨ ¬ SameEnd claimed observed →
            JudgesMoney "change_since_stated_balance" currency claimed observed outcome
      | seen, _ => JudgesMoney "amount" currency amount.raw (seen.getD .zero).raw outcome
    | .positionQuantity instrument quantity point =>
      match t.positionAt point instrument, decide (t.positionAnchor[instrument]? = some .unasserted) with
      | some _, true => outcome = .notComparable .openingNotAsserted
      | seen, _ => JudgesQuantity quantity (seen.getD .zero) outcome
    | .cashTurnover currency debit credit =>
      let seen := t.turnover[currency]?.getD .zero
      if debit = seen.debit then JudgesMoney "credit" currency credit.raw seen.credit.raw outcome
      else JudgesMoney "debit" currency debit.raw seen.debit.raw outcome
    | .feesTotal currency amount => JudgesMoney "amount" currency amount.raw (t.fees[currency]?.getD .zero).raw outcome
    | .incomeTotal currency amount =>
      JudgesMoney "amount" currency amount.raw (t.income[currency]?.getD .zero).raw outcome
    | .taxWithheldTotal currency amount =>
      if t.taxFactsRecorded then
        JudgesMoney "amount" currency amount.raw (t.taxWithheld[currency]?.getD .zero).raw outcome
      else outcome = .notComparable .taxFactsNotRecorded

section
variable {t : ObservedTotals}

theorem judges_cash (hseen : t.eventsSeen ≠ 0) (currency : CurrencyCode) (amount : PostedMinor) (point : BalancePoint) :
    Judges (.cashBalance currency amount point) t (checkCash currency amount point t) := by
  rw [Judges, if_neg hseen]
  unfold checkCash
  cases hcash : t.cashAt point currency with
  | none => exact (judges_money _ _).named
  | some seen =>
    by_cases hstart : t.cashAnchor[currency]? = some .unasserted
    · have hfor : cashBaselineFor t point currency = t.cashBaseline[(⟨point, currency⟩ : BaselineKey)]? := by
        simp [cashBaselineFor, hcash, hstart]
      simp only [hstart, hfor, decide_true, if_true]
      cases t.cashBaseline[(⟨point, currency⟩ : BaselineKey)]? with
      | none => rfl
      | some stated => exact fun hends => judges_saturated hends
    · simp only [hstart, decide_false, if_false]
      exact (judges_money _ _).named

theorem judges_position (hseen : t.eventsSeen ≠ 0) (instrument : InstrumentId) (quantity : Quantity)
    (point : BalancePoint) :
    Judges (.positionQuantity instrument quantity point) t (checkPosition instrument quantity point t) := by
  rw [Judges, if_neg hseen]
  unfold checkPosition
  cases hposition : t.positionAt point instrument with
  | none => exact (judges_quantity _ _).named
  | some seen =>
    by_cases hstart : t.positionAnchor[instrument]? = some .unasserted
    · simp only [hstart, decide_true, if_true]
    · simp only [hstart, decide_false, if_false]
      exact (judges_quantity _ _).named

/-- Every claim is judged by its figures, whatever the quantities of the interval are. -/
theorem checkClaim_judges (claim : ControlClaim) (t : ObservedTotals) : Judges claim t (Iaam.checkClaim claim t) := by
  unfold Iaam.checkClaim
  by_cases hseen : t.eventsSeen = 0
  · unfold Judges
    rw [if_pos hseen, if_pos hseen]
  rw [if_neg hseen]
  cases claim with
  | cashBalance currency amount point => exact judges_cash hseen currency amount point
  | positionQuantity instrument quantity point => exact judges_position hseen instrument quantity point
  | cashTurnover currency debit credit =>
    rw [Judges, if_neg hseen]
    dsimp only
    -- The debit is compared first, and the credit where the debit matches.
    by_cases hdebit : debit = (t.turnover[currency]?.getD .zero).debit
    · rw [if_pos hdebit, ← hdebit, compareMoney_self]
      exact judges_money _ _
    · rw [if_neg hdebit]
      have hjudged := @judges_money "debit" currency debit (t.turnover[currency]?.getD .zero).debit
      obtain ⟨d, hd, -⟩ := hjudged.discrepant fun heq => hdebit (PostedMinor.ext_raw heq)
      rw [hd] at hjudged ⊢
      exact hjudged
  | feesTotal currency amount | incomeTotal currency amount =>
    rw [Judges, if_neg hseen]
    exact judges_money _ _
  | taxWithheldTotal currency amount =>
    rw [Judges, if_neg hseen]
    dsimp only
    split
    · exact judges_money _ _
    · rfl

end

/-! ### Differences that cannot be shown -/

theorem most_fits : FitsI64 (2 ^ 63 - 1) := by decide
theorem debt_fits : FitsI64 (-1) := by decide

def sampleMost : PostedMinor := ⟨2 ^ 63 - 1, most_fits⟩
def sampleDebt : PostedMinor := ⟨-1, debt_fits⟩

/-- A journal that ends the interval with a debt of one kopeck. -/
def sampleInDebt : ObservedTotals :=
  { ObservedTotals.empty with
    cashClosing := (∅ : Tree.Map CurrencyCode PostedMinor).insert .rub sampleDebt
    within := ⟨1, none, none⟩ }

/-- The difference shown is one less than the true one, and equal figures are not compared where nothing was seen. -/
theorem inDebt_saturated :
    (∃ d, Iaam.checkClaim (.cashBalance .rub sampleMost .closing) sampleInDebt = .discrepant d ∧
      d.delta = .money sampleMost .rub ∧ sampleMost.raw - sampleDebt.raw = sampleMost.raw + 1) ∧
    Iaam.checkClaim (.feesTotal .rub .zero) ObservedTotals.empty = .notComparable .noJournalCoverage := by
  refine ⟨⟨_, rfl, ?_, ?_⟩, rfl⟩
  · decide
  · decide

end ClaimComparison
end Iaam
