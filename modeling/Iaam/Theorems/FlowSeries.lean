import Iaam.Projection.Project
import Iaam.Returns
import Iaam.Theorems.Incremental

/-! The flows of a projected state, and the sums of the returns report over them in any order. -/

namespace Iaam
namespace Returns
open Outcome

/-! ### The flows of a projected state -/

/-- The amount has the sign of the direction. -/
def Directed (flow : ExternalFlow) : Prop :=
  match flow.direction with
  | .in => 0 < flow.amount.amount.raw
  | .out => flow.amount.amount.raw < 0

/-- The flows are those of one version of a contour, each with the sign of its direction. -/
def FlowsOf (contour : ContourDefinition) (log : FlowLog) : Prop :=
  ∀ flow ∈ log.external, flow.contour = contour.id ∧ flow.version = contour.version ∧ Directed flow

section
variable {contour : ContourDefinition} {log log' : FlowLog} {e : Event}

theorem directed_of_requireSignMatches {event : EventId} {date : Date} {direction : FlowDirection} {money : Money}
    {id : ContourId} {version : Nat} (h : requireSignMatches event direction money = .ok ()) :
    Directed ⟨event, date, money, direction, id, version⟩ := by
  unfold requireSignMatches at h
  cases direction with
  | «in» =>
    simp only [ite_eq_left_iff, reduceCtorEq, imp_false, not_not, decide_eq_true_eq] at h
    exact h
  | out =>
    simp only [ite_eq_left_iff, reduceCtorEq, imp_false, not_not, decide_eq_true_eq] at h
    exact h

theorem FlowsOf.record {direction : FlowDirection} (hlog : FlowsOf contour log)
    (h : log.record e contour direction contour.id contour.version = .ok log') : FlowsOf contour log' := by
  unfold FlowLog.record at h
  cases hdate : e.dates.effectiveDate <;> rw [hdate] at h
  case none => cases h
  obtain ⟨date, -, h⟩ := bind_ok.mp h
  obtain ⟨effects, -, h⟩ := bind_ok.mp h
  refine (Runs.foldlM_ok.mp h).keeps (P := FlowsOf contour) ?_ hlog
  rintro before ⟨currency, amount⟩ after hbefore hstep
  obtain ⟨hsign, hstep⟩ := seq_ok.mp hstep
  cases hstep
  intro flow hflow
  rcases List.mem_append.mp hflow with hold | hnew
  · exact hbefore flow hold
  · cases List.mem_singleton.mp hnew
    exact ⟨rfl, rfl, directed_of_requireSignMatches hsign⟩

theorem classify_external {id : ContourId} {version : Nat}
    (h : classify contour e = .externalIn id version ∨ classify contour e = .externalOut id version) :
    id = contour.id ∧ version = contour.version := by
  unfold classify at h
  repeat' split at h
  all_goals simp_all

theorem FlowsOf.apply (hlog : FlowsOf contour log) (h : log.apply e contour = .ok log') : FlowsOf contour log' := by
  unfold FlowLog.apply at h
  cases hclass : classify contour e <;> rw [hclass] at h
  case externalIn id version =>
    obtain ⟨rfl, rfl⟩ := classify_external (.inl hclass)
    exact hlog.record h
  case externalOut id version =>
    obtain ⟨rfl, rfl⟩ := classify_external (.inr hclass)
    exact hlog.record h
  all_goals
    cases h
    split <;> exact hlog

end

/-- The state is a projection of a journal over the contour. -/
def ProjectedFor (contour : ContourDefinition) (state : LedgerState) : Prop :=
  ∃ (H : Hashing) (ctx : ProjectionContext) (events : List Event) (p : Projection H),
    ctx.contour = contour ∧ project H ctx events = .ok p ∧ p.snapshot.state = state

/-- A projected state has only flows of its own contour. -/
theorem ProjectedFor.flowsOf {contour : ContourDefinition} {state : LedgerState} (h : ProjectedFor contour state) :
    FlowsOf contour state.flows := by
  obtain ⟨H, ctx, events, p, rfl, hproject, rfl⟩ := h
  obtain ⟨effective, -, hfold⟩ := Incremental.project_ok hproject
  refine (Runs.foldlM_ok.mp (Incremental.fold_ok hfold).1).keeps (P := fun state => FlowsOf ctx.contour state.flows) ?_ ?_
  · intro before event after hbefore hstep
    obtain ⟨balances, -, hstep⟩ := bind_ok.mp hstep
    obtain ⟨book, -, hstep⟩ := bind_ok.mp hstep
    obtain ⟨flows, hflows, hstep⟩ := bind_ok.mp hstep
    obtain ⟨income, -, hstep⟩ := bind_ok.mp hstep
    cases hstep
    exact hbefore.apply (convert_ok.mp hflows)
  · intro flow hflow
    cases hflow

/-! ### The sums in any order -/

section
variable {request : ReturnsRequest} {flow : ExternalFlow} {series : FlowSeries}

/-- The flow has the sign of its direction and a rate on its day, and the rate is not negative. -/
def Convertible (request : ReturnsRequest) (flow : ExternalFlow) : Prop :=
  Directed flow ∧ ∃ rate, request.fx.rate flow.amount.currency request.reportCurrency flow.date = some rate ∧ 0 ≤ rate.val

/-- What a flow is worth in the currency of the report. -/
def worth (request : ReturnsRequest) (flow : ExternalFlow) : ℚ :=
  flow.amount.toCalcDec.val *
    ((request.fx.rate flow.amount.currency request.reportCurrency flow.date).map Dec.val).getD 0

def cameIn (request : ReturnsRequest) (flow : ExternalFlow) : ℚ :=
  match flow.direction with
  | .in => worth request flow
  | .out => 0

def wentOut (request : ReturnsRequest) (flow : ExternalFlow) : ℚ :=
  match flow.direction with
  | .in => 0
  | .out => -worth request flow

theorem converted_of_rate {rate : Dec}
    (h : request.fx.rate flow.amount.currency request.reportCurrency flow.date = some rate) :
    converted request flow.date flow.amount =
      (Dec.checked (worth request flow)).mapError fun _ => .numeric "numeric" := by
  simp only [converted, convertMoney, worth, Dec.checkedMul, h, Option.map_some, Option.getD_some]
  cases Dec.checked (flow.amount.toCalcDec.val * rate.val) <;> rfl

theorem cameIn_nonneg (h : Convertible request flow) : 0 ≤ cameIn request flow ∧ 0 ≤ wentOut request flow := by
  obtain ⟨hdirected, rate, hrate, hpos⟩ := h
  have hscale : (0 : ℚ) < 10 ^ flow.amount.currency.minorUnits := by positivity
  unfold Directed at hdirected
  unfold cameIn wentOut worth
  rw [hrate]
  cases hdir : flow.direction <;> rw [hdir] at hdirected
  case «in» =>
    have hraw : (0 : ℚ) ≤ flow.amount.amount.raw := by exact_mod_cast le_of_lt hdirected
    exact ⟨mul_nonneg (div_nonneg hraw hscale.le) hpos, le_refl _⟩
  case out =>
    have hraw : (flow.amount.amount.raw : ℚ) ≤ 0 := by exact_mod_cast le_of_lt hdirected
    exact ⟨le_refl _, neg_nonneg.mpr (mul_nonpos_of_nonpos_of_nonneg (div_nonpos_of_nonpos_of_nonneg hraw hscale.le) hpos)⟩

/-- The sums of the flows fit, and so does each flow. -/
def Fits (request : ReturnsRequest) (series : FlowSeries) (flows : List ExternalFlow) : Prop :=
  (∀ flow ∈ flows, |worth request flow| ≤ decimalMax) ∧
    series.contributed.val + (flows.map (cameIn request)).sum ≤ decimalMax ∧
    series.withdrawn.val + (flows.map (wentOut request)).sum ≤ decimalMax

theorem Fits.perm {flows flows' : List ExternalFlow} (h : Fits request series flows) (hp : flows.Perm flows') :
    Fits request series flows' := by
  obtain ⟨hall, hin, hout⟩ := h
  refine ⟨fun flow hflow => hall flow (hp.mem_iff.mpr hflow), ?_, ?_⟩
  · rwa [← (hp.map _).sum_eq]
  · rwa [← (hp.map _).sum_eq]

theorem checked_cases (q : ℚ) :
    (∃ d, Dec.checked q = .ok d ∧ d.val = q ∧ |q| ≤ decimalMax) ∨ Dec.checked q = .error .overflow ∧ ¬|q| ≤ decimalMax := by
  unfold Dec.checked Dec.exact
  by_cases h : |q| ≤ decimalMax
  · rw [dif_pos h]
    exact .inl ⟨⟨q, h⟩, rfl, rfl, h⟩
  · rw [dif_neg h]
    exact .inr ⟨rfl, h⟩

/-- One flow: both sums grow by it, or a number is out of range. -/
theorem addFlow_cases (series : FlowSeries) (hflow : Convertible request flow) :
    (∃ series', addFlow request series flow = .ok series' ∧
        series'.contributed.val = series.contributed.val + cameIn request flow ∧
        series'.withdrawn.val = series.withdrawn.val + wentOut request flow ∧ |worth request flow| ≤ decimalMax) ∨
      addFlow request series flow = .error (.numeric "numeric") ∧
        ¬(|worth request flow| ≤ decimalMax ∧ |series.contributed.val + cameIn request flow| ≤ decimalMax ∧
          |series.withdrawn.val + wentOut request flow| ≤ decimalMax) := by
  obtain ⟨-, rate, hrate, -⟩ := hflow
  unfold addFlow
  rw [converted_of_rate hrate]
  rcases checked_cases (worth request flow) with ⟨amount, hamount, hval, hfits⟩ | ⟨hover, hfits⟩
  case inr =>
    rw [hover]
    exact .inr ⟨rfl, fun h => hfits h.1⟩
  obtain ⟨owner, howner⟩ := amount.checkedNeg_total
  simp only [hamount, Except.mapError, ok_bind, neg, howner]
  cases hdir : flow.direction with
  | «in» =>
    simp only [addDirected, add, Dec.checkedAdd, cameIn, wentOut, hdir, hval, add_zero]
    rcases checked_cases (series.contributed.val + worth request flow) with ⟨sum, hsum, hsumval, -⟩ | ⟨hsum, hout⟩
    · rw [hsum]
      exact .inl ⟨_, rfl, hsumval, rfl, hfits⟩
    · rw [hsum]
      exact .inr ⟨rfl, fun h => hout h.2.1⟩
  | out =>
    simp only [addDirected, sub, Dec.checkedSub, cameIn, wentOut, hdir, hval, add_zero, ← sub_eq_add_neg]
    rcases checked_cases (series.withdrawn.val - worth request flow) with ⟨sum, hsum, hsumval, -⟩ | ⟨hsum, hout⟩
    · rw [hsum]
      exact .inl ⟨_, rfl, rfl, hsumval, hfits⟩
    · rw [hsum]
      exact .inr ⟨rfl, fun h => hout h.2.2⟩

/-- All the flows: the sums are those of the amounts when everything fits, and else there is one refusal. The
    partial sums grow, so that nothing is out of range on the way to sums that fit. -/
theorem addFlows_cases (series : FlowSeries) {flows : List ExternalFlow} (hflows : ∀ flow ∈ flows, Convertible request flow)
    (hin : 0 ≤ series.contributed.val) (hout : 0 ≤ series.withdrawn.val) :
    (∃ series', flows.foldlM (addFlow request) series = .ok series' ∧
        series'.contributed.val = series.contributed.val + (flows.map (cameIn request)).sum ∧
        series'.withdrawn.val = series.withdrawn.val + (flows.map (wentOut request)).sum ∧ Fits request series flows) ∨
      flows.foldlM (addFlow request) series = .error (.numeric "numeric") ∧ ¬Fits request series flows := by
  induction flows generalizing series with
  | nil =>
    left
    have hc := (abs_le.mp series.contributed.inRange).2
    have hw := (abs_le.mp series.withdrawn.inRange).2
    exact ⟨series, rfl, by simp, by simp, by simp, by simpa using hc, by simpa using hw⟩
  | cons flow flows ih =>
    have hrest := fun f hf => hflows f (List.mem_cons_of_mem _ hf)
    obtain ⟨hcame, hwent⟩ := cameIn_nonneg (hflows flow List.mem_cons_self)
    have hins : 0 ≤ (flows.map (cameIn request)).sum := List.sum_nonneg fun x hx => by
      obtain ⟨f, hf, rfl⟩ := List.mem_map.mp hx
      exact (cameIn_nonneg (hrest f hf)).1
    have houts : 0 ≤ (flows.map (wentOut request)).sum := List.sum_nonneg fun x hx => by
      obtain ⟨f, hf, rfl⟩ := List.mem_map.mp hx
      exact (cameIn_nonneg (hrest f hf)).2
    rw [List.foldlM_cons]
    rcases addFlow_cases series (hflows flow List.mem_cons_self) with ⟨next, hnext, hc, hw, hfits⟩ | ⟨herror, hfits⟩
    · rw [hnext, ok_bind]
      have hiff : Fits request series (flow :: flows) ↔ Fits request next flows := by
        simp only [Fits, List.forall_mem_cons, List.map_cons, List.sum_cons, hc, hw, hfits, true_and, add_assoc]
      rcases ih next hrest (by rw [hc]; linarith) (by rw [hw]; linarith) with ⟨last, hlast, hlc, hlw, hall⟩ | ⟨herror, hnot⟩
      · refine .inl ⟨last, hlast, ?_, ?_, hiff.mpr hall⟩
        · rw [hlc, hc, List.map_cons, List.sum_cons, add_assoc]
        · rw [hlw, hw, List.map_cons, List.sum_cons, add_assoc]
      · exact .inr ⟨herror, fun h => hnot (hiff.mp h)⟩
    · rw [herror]
      refine .inr ⟨rfl, fun h => hfits ?_⟩
      obtain ⟨hall, hc, hw⟩ := h
      rw [List.map_cons, List.sum_cons] at hc hw
      refine ⟨hall flow List.mem_cons_self, ?_, ?_⟩
      · rw [abs_of_nonneg (by linarith)]
        linarith
      · rw [abs_of_nonneg (by linarith)]
        linarith

/-- The two sums of a series, or the refusal. -/
def sumsOf (series : Computed FlowSeries) : Computed (Dec × Dec) := series.map fun s => (s.contributed, s.withdrawn)

theorem contributed_eq (series : Computed FlowSeries) : series.map FlowSeries.contributed = (sumsOf series).map Prod.fst := by
  cases series <;> rfl

theorem withdrawn_eq (series : Computed FlowSeries) : series.map FlowSeries.withdrawn = (sumsOf series).map Prod.snd := by
  cases series <;> rfl

/-- Sorting the series does not touch the sums. -/
theorem sumsOf_flowSeries {state : LedgerState} (hnew : guardStateNotNewer state request.asOf = .ok ()) :
    sumsOf (flowSeries state request) =
      sumsOf ((flowsUpTo state request.asOf).foldlM (addFlow request) ⟨.zero, .zero, []⟩) := by
  unfold flowSeries
  rw [hnew, ok_bind]
  cases (flowsUpTo state request.asOf).foldlM (addFlow request) ⟨.zero, .zero, []⟩ <;> rfl

/-- Flows that all have a rate give the same sums in any order. -/
theorem sumsOf_perm {flows flows' : List ExternalFlow} (hp : flows.Perm flows')
    (hflows : ∀ flow ∈ flows, Convertible request flow) :
    sumsOf (flows.foldlM (addFlow request) ⟨.zero, .zero, []⟩) =
      sumsOf (flows'.foldlM (addFlow request) ⟨.zero, .zero, []⟩) := by
  have hflows' := fun flow hflow => hflows flow (hp.mem_iff.mpr hflow)
  rcases addFlows_cases ⟨.zero, .zero, []⟩ hflows (le_refl _) (le_refl _) with
    ⟨s, hs, hc, hw, hfits⟩ | ⟨hs, hfits⟩ <;>
  rcases addFlows_cases ⟨.zero, .zero, []⟩ hflows' (le_refl _) (le_refl _) with
    ⟨t, ht, hc', hw', hfits'⟩ | ⟨ht, hfits'⟩
  · rw [hs, ht]
    have hin : s.contributed = t.contributed := Dec.ext_val (by rw [hc, hc', (hp.map _).sum_eq])
    have hout : s.withdrawn = t.withdrawn := Dec.ext_val (by rw [hw, hw', (hp.map _).sum_eq])
    simp [sumsOf, Except.map, hin, hout]
  · exact absurd (hfits.perm hp) hfits'
  · exact absurd (hfits'.perm hp.symm) hfits
  · rw [hs, ht]

end

end Returns
end Iaam
