import Iaam.Lib.Totals
import Iaam.Theorems.Comparison

/-! The observed figures of one interval and of the next: what an interval adds up is the sum over the legs of the
account dated within it, so that the balance at its end is the balance at its start and what moved in between, and
an interval cut in two has the figures of its parts. -/

namespace Iaam
namespace Observed
open Outcome Runs Figures TransferPairing Comparison

/-- The quantities that an interval adds up. -/
inductive IntervalFigure where
  | debit | credit | fees | income | taxWithheld

/-- What the totals say in a currency; an absent figure is zero. -/
def figure (t : IntervalTotals) (currency : CurrencyCode) : IntervalFigure → Int
  | .debit => (t.turnover[currency]?.getD .zero).debit.raw
  | .credit => (t.turnover[currency]?.getD .zero).credit.raw
  | .fees => (t.fees[currency]?.getD .zero).raw
  | .income => (t.income[currency]?.getD .zero).raw
  | .taxWithheld => (t.taxWithheld[currency]?.getD .zero).raw

/-- The share of one leg in a figure. -/
def legShare (isIncome : Bool) (key : CashKey) (f : IntervalFigure) (leg : Leg) : Int :=
  match f with
  | .debit => max (leg.cashOn key) 0
  | .credit => max (-leg.cashOn key) 0
  | .fees => if leg.kind = .fee then |leg.cashOn key| else 0
  | .income => if leg.kind = .cash ∧ isIncome = true then |leg.cashOn key| else 0
  | .taxWithheld => if leg.kind = .tax then |leg.cashOn key| else 0

def eventShare (key : CashKey) (f : IntervalFigure) (e : Event) : Int :=
  (e.legs.map (legShare e.kind.isIncome key f)).sum

/-! ### One leg -/

section
variable {account : AccountId} {currency : CurrencyCode} {t t' : IntervalTotals} {leg : Leg}

theorem addMagnitude_ok (currency : CurrencyCode) {into into' : Tree.Map CurrencyCode PostedMinor} {code : CurrencyCode} {raw : Int}
    {field : String} (h : addMagnitude into code raw field = .ok into') :
    (into'[currency]?.getD .zero).raw = (into[currency]?.getD .zero).raw + |if code = currency then raw else 0| := by
  simp only [addMagnitude] at h
  split at h
  · cases h
  · next magnitude hmagnitude =>
    split at h
    · cases h
    · next sum hsum =>
      cases h
      have hraw : sum.raw = (into[code]?.getD .zero).raw + |raw| := by
        rw [← PostedMinor.ofInt_eq_some.mp hmagnitude]
        exact PostedMinor.ofInt_eq_some.mp hsum
      rw [Tree.get_insert]
      by_cases hcode : code = currency
      · simpa [hcode] using hcode ▸ hraw
      · simp [hcode]

theorem addTurnover_ok {turnover turnover' : Turnover} {raw : Int} (h : addTurnover turnover raw = .ok turnover') :
    turnover'.debit.raw = turnover.debit.raw + max raw 0 ∧ turnover'.credit.raw = turnover.credit.raw + max (-raw) 0 := by
  simp only [addTurnover] at h
  split at h
  · next hraw =>
    split at h
    · cases h
    · next debit hdebit =>
      cases h
      obtain ⟨amount, hamount, hsum⟩ := Option.bind_eq_some_iff.mp hdebit
      have hamount := PostedMinor.ofInt_eq_some.mp hamount
      have hsum : debit.raw = turnover.debit.raw + amount.raw := PostedMinor.ofInt_eq_some.mp hsum
      constructor
      · simp only [hsum, hamount]
        omega
      · dsimp only
        omega
  · next hraw =>
    split at h
    · cases h
    · next credit hcredit =>
      cases h
      obtain ⟨amount, hamount, hsum⟩ := Option.bind_eq_some_iff.mp hcredit
      have hamount := PostedMinor.ofInt_eq_some.mp hamount
      have hsum : credit.raw = turnover.credit.raw + amount.raw := PostedMinor.ofInt_eq_some.mp hsum
      constructor
      · dsimp only
        omega
      · simp only [hsum, hamount]
        omega

theorem turnover_figure (currency : CurrencyCode) {turnover : Turnover} {code : CurrencyCode} {raw : Int}
    (h : addTurnover (t.turnover[code]?.getD .zero) raw = .ok turnover) :
    (((t.turnover.insert code turnover)[currency]?.getD .zero).debit.raw =
        (t.turnover[currency]?.getD .zero).debit.raw + max (if code = currency then raw else 0) 0) ∧
      (((t.turnover.insert code turnover)[currency]?.getD .zero).credit.raw =
        (t.turnover[currency]?.getD .zero).credit.raw + max (-if code = currency then raw else 0) 0) := by
  rw [Tree.get_insert]
  by_cases hcode : code = currency
  · cases hcode
    simpa using addTurnover_ok h
  · simp [hcode]

theorem cashOn_of_account (h : leg.account ≠ account) : leg.cashOn ⟨account, currency⟩ = 0 := by
  simp only [Leg.cashOn]
  split
  · simp [h]
  · rfl

/-- A leg adds its share to each figure. -/
theorem accumulateLeg_ok {isIncome : Bool} (h : accumulateLeg isIncome account t leg = .ok t') (f : IntervalFigure) :
    figure t' currency f = figure t currency f + legShare isIncome ⟨account, currency⟩ f leg := by
  simp only [accumulateLeg] at h
  split at h
  · next haccount =>
    cases h
    cases f <;> simp [legShare, cashOn_of_account haccount]
  · next haccount =>
    rw [not_not] at haccount
    split at h
    · next hnone =>
      cases h
      cases f <;> simp [legShare, Leg.cashOn, hnone]
    · next money hmoney =>
      have hon : leg.cashOn ⟨account, currency⟩ = if money.currency = currency then money.amount.raw else 0 := by
        simp [Leg.cashOn, hmoney, haccount]
      obtain ⟨turnover, hturnover, h⟩ := bind_ok.mp h
      obtain ⟨hdebit, hcredit⟩ := turnover_figure currency hturnover
      split at h
      · next hkind =>
        obtain ⟨fees, hfees, h⟩ := bind_ok.mp h
        cases h
        have hfees := addMagnitude_ok currency hfees
        cases f <;> simp [figure, legShare, hon, hkind, hdebit, hcredit, hfees]
      · next hkind =>
        obtain ⟨tax, htax, h⟩ := bind_ok.mp h
        cases h
        have htax := addMagnitude_ok currency htax
        cases f <;> simp [figure, legShare, hon, hkind, hdebit, hcredit, htax]
      · next hkind =>
        split at h
        · next hincome =>
          obtain ⟨income, hadded, h⟩ := bind_ok.mp h
          cases h
          have hadded := addMagnitude_ok currency hadded
          cases f <;> simp [figure, legShare, hon, hkind, hincome, hdebit, hcredit, hadded]
        · next hincome =>
          cases h
          cases f <;> simp [figure, legShare, hon, hkind, hincome, hdebit, hcredit]
      · next hkind =>
        cases h
        cases f <;> simp [figure, legShare, hon, hkind, hdebit, hcredit]
      · next hkind =>
        cases h
        cases f <;> simp [figure, legShare, hon, hkind, hdebit, hcredit]

/-! ### An interval -/

variable {events : List Event} {period : AssertionPeriod} {totals : ObservedTotals}

/-- A figure of an interval is the sum over the events of the account dated within it. -/
theorem Observes.figure_eq (h : Observes events account period totals) (f : IntervalFigure) :
    figure totals.toIntervalTotals currency f =
      ((events.filter (inside account period)).map (eventShare ⟨account, currency⟩ f)).sum := by
  have hrun := (foldlM_ok.mp h.interval).adds (fun t => figure t currency f) (eventShare ⟨account, currency⟩ f)
    fun _ hstep => (foldlM_ok.mp hstep).adds (fun t => figure t currency f) _ fun _ hleg => accumulateLeg_ok hleg f
  have hempty : figure ObservedTotals.empty.toIntervalTotals currency f = 0 := by
    cases f <;> simp [figure, ObservedTotals.empty, Turnover.zero, PostedMinor.zero]
  rw [hrun, hempty, zero_add]

/-- The debit of an event is its credit and what it moves. -/
theorem eventShare_debit (key : CashKey) (e : Event) :
    eventShare key .debit e = e.cashEffect key + eventShare key .credit e := by
  simp only [eventShare, Event.cashEffect, ← List.sum_map_add]
  refine congrArg List.sum (List.map_congr_left fun leg _ => ?_)
  simp only [legShare]
  omega

/-- The cash at a point of an interval; an absent figure is zero. -/
def cashOr (t : ObservedTotals) (point : BalancePoint) (currency : CurrencyCode) : Int :=
  ((t.cashAt point currency).getD .zero).raw

theorem Observes.cashOr_eq (h : Observes events account period totals) (currency : CurrencyCode) (point : BalancePoint) :
    cashOr totals point currency = cashMoved (events.filter (dated (upTo period point))) ⟨account, currency⟩ := by
  have hfigure := h.cash point currency
  simp only [cashFigure] at hfigure
  simp only [cashOr]
  cases hat : totals.cashAt point currency with
  | none =>
    rw [hat] at hfigure
    split at hfigure
    · cases hfigure
    · next hany => exact (cashMoved_eq_zero (Bool.eq_false_iff.mpr hany)).symm
  | some seen =>
    rw [hat] at hfigure
    split at hfigure
    · exact Option.some.inj hfigure
    · cases hfigure

theorem eventShare_of_touches {e : Event} (h : e.touches account = false) (f : IntervalFigure) :
    eventShare ⟨account, currency⟩ f e = 0 := by
  refine List.sum_eq_zero fun share hshare => ?_
  obtain ⟨leg, hleg, rfl⟩ := List.mem_map.mp hshare
  have haccount : leg.account ≠ account := by simpa using List.any_eq_false.mp h leg hleg
  cases f <;> simp [legShare, cashOn_of_account haccount]

/-- Dates cut in two cut the events of those dates in two. -/
theorem splits_dated {p q r : Date → Bool} (h : ∀ date, p date = (q date || r date) ∧ (q date && r date) = false)
    (events : List Event) : Cut.Splits (dated p) (dated q) (dated r) events := by
  intro e _
  simp only [dated]
  cases e.dates.effectiveDate with
  | none => simp
  | some date => exact h date

/-- Only the events of the account have a share. -/
theorem sum_inside (events : List Event) (period : AssertionPeriod) (f : IntervalFigure) :
    ((events.filter (inside account period)).map (eventShare ⟨account, currency⟩ f)).sum =
      ((events.filter (dated period.contains)).map (eventShare ⟨account, currency⟩ f)).sum := by
  have hsplits : Cut.Splits (dated period.contains) (inside account period)
      (fun e => dated period.contains e && !e.touches account) events := by
    intro e _
    have hinside : inside account period e = (dated period.contains e && e.touches account) := by
      simp only [inside, dated]
      cases e.dates.effectiveDate with
      | none => rfl
      | some date => by_cases hb : date < period.from <;> simp [AssertionPeriod.contains, hb, not_le]
    rw [hinside]
    cases hdated : dated period.contains e <;> cases htouches : e.touches account <;> simp [hdated, htouches]
  rw [Cut.sum_eq_add hsplits]
  refine (add_eq_left.mpr (List.sum_eq_zero fun share hshare => ?_)).symm
  obtain ⟨e, he, rfl⟩ := List.mem_map.mp hshare
  have htouches : e.touches account = false := by
    have hout := (List.mem_filter.mp he).2
    simp only [Bool.and_eq_true, Bool.not_eq_true'] at hout
    exact hout.2
  exact eventShare_of_touches htouches f

/-- The balance at the end of an interval is the balance at its start, and what came in, less what went out. -/
theorem Observes.closing_eq (h : Observes events account period totals) :
    cashOr totals .closing currency = cashOr totals .opening currency +
      figure totals.toIntervalTotals currency .debit - figure totals.toIntervalTotals currency .credit := by
  have hsplits := splits_dated (p := upTo period .closing) (q := upTo period .opening) (r := period.contains)
    (fun date => ⟨rfl, by by_cases hb : date < period.from <;> simp [upTo, AssertionPeriod.contains, hb, not_le]⟩) events
  have hdebit : ((events.filter (dated period.contains)).map (eventShare ⟨account, currency⟩ .debit)).sum =
      cashMoved (events.filter (dated period.contains)) ⟨account, currency⟩ +
        ((events.filter (dated period.contains)).map (eventShare ⟨account, currency⟩ .credit)).sum := by
    rw [cashMoved, ← List.sum_map_add]
    exact congrArg List.sum (List.map_congr_left fun e _ => eventShare_debit _ e)
  have hclosing : cashMoved (events.filter (dated (upTo period .closing))) ⟨account, currency⟩ =
      cashMoved (events.filter (dated (upTo period .opening))) ⟨account, currency⟩ +
        cashMoved (events.filter (dated period.contains)) ⟨account, currency⟩ := Cut.sum_eq_add hsplits _
  rw [h.cashOr_eq, h.cashOr_eq, h.figure_eq, h.figure_eq, sum_inside, sum_inside, hdebit, hclosing]
  omega

/-! ### Two intervals -/

/-- Figures of adjacent intervals: the balance carries over, an interval accounts for its own change of balance,
    and what the intervals add up adds up over both. -/
theorem adjacent_intervals_add (currency : CurrencyCode) {a b c : Date} (hab : a ≤ b) (hbc : b.next ≤ c) {first second : ObservedTotals}
    (hfirst : observe events account ⟨a, b⟩ = .ok first) (hsecond : observe events account ⟨b.next, c⟩ = .ok second) :
    cashOr first .closing currency = cashOr first .opening currency +
        figure first.toIntervalTotals currency .debit - figure first.toIntervalTotals currency .credit ∧
      cashOr first .closing currency = cashOr second .opening currency ∧
      ∀ whole, observe events account ⟨a, c⟩ = .ok whole → ∀ f, figure whole.toIntervalTotals currency f =
        figure first.toIntervalTotals currency f + figure second.toIntervalTotals currency f := by
  have hfirst := observes_of_ok hfirst
  have hsecond := observes_of_ok hsecond
  rw [Date.le_iff] at hab hbc
  simp only [Date.next] at hbc
  refine ⟨hfirst.closing_eq, ?_, fun whole hwhole f => ?_⟩
  · rw [hfirst.cashOr_eq, hsecond.cashOr_eq]
    have hdates : upTo ⟨a, b⟩ .closing = upTo ⟨b.next, c⟩ .opening := by
      funext date
      simp only [upTo, AssertionPeriod.contains, Date.next, ← not_le, Date.le_iff]
      rw [← Bool.decide_and, ← Bool.decide_or, decide_eq_decide]
      omega
    rw [hdates]
  · have hwhole := observes_of_ok hwhole
    rw [hwhole.figure_eq, hfirst.figure_eq, hsecond.figure_eq, sum_inside, sum_inside, sum_inside]
    refine Cut.sum_eq_add (splits_dated (fun date => ⟨?_, ?_⟩) events) _
    · simp only [AssertionPeriod.contains, Date.next, Date.le_iff]
      rw [← Bool.decide_and, ← Bool.decide_and, ← Bool.decide_and, ← Bool.decide_or, decide_eq_decide]
      omega
    · simp only [AssertionPeriod.contains, Date.next, Date.le_iff]
      rw [← Bool.decide_and, ← Bool.decide_and, ← Bool.decide_and, decide_eq_false_iff_not]
      omega

end

/-- Five roubles on one day, and a withdrawal of two on the next. -/
def depositAndWithdrawal : List Event :=
  [eventWith ⟨1⟩ ⟨1⟩ ⟨10⟩ 0 (.cashIn ⟨.new 500, .rub⟩) [.cash ⟨1⟩ ⟨.new 500, .rub⟩],
    eventWith ⟨2⟩ ⟨1⟩ ⟨11⟩ 0 (.cashOut ⟨.new 200, .rub⟩) [.cash ⟨1⟩ ⟨.new (-200), .rub⟩]]

/-- The first day closes at what the second opens with. -/
theorem deposit_carries_over :
    ∃ first second, observe depositAndWithdrawal ⟨1⟩ ⟨⟨10⟩, ⟨10⟩⟩ = .ok first ∧
      observe depositAndWithdrawal ⟨1⟩ ⟨⟨11⟩, ⟨11⟩⟩ = .ok second ∧
        cashOr first .closing .rub = cashOr second .opening .rub := by
  obtain ⟨first, hfirst⟩ := exists_ok
    (show (observe depositAndWithdrawal ⟨1⟩ ⟨⟨10⟩, ⟨10⟩⟩).isOk = true by decide)
  obtain ⟨second, hsecond⟩ := exists_ok
    (show (observe depositAndWithdrawal ⟨1⟩ ⟨⟨11⟩, ⟨11⟩⟩).isOk = true by decide)
  have hadd := adjacent_intervals_add .rub (a := ⟨10⟩) (b := ⟨10⟩) (c := ⟨11⟩) (le_refl _) (le_refl _)
    hfirst hsecond
  exact ⟨first, second, hfirst, hsecond, hadd.2.1⟩

end Observed
end Iaam
