import Iaam.Theorems.Intervals
import Iaam.Theorems.Retraction

/-! History that was missing before a stated balance. A claim that is measured by its change since that balance does
not see it: the movements enter the balance that is claimed and the balance it is measured from alike. -/

namespace Iaam
namespace MissingHistory
open Outcome Runs Figures TransferPairing Comparison Observed

/-! ### The order of the statements -/

section
variable {stated stated' : List StatedBalance} {period : AssertionPeriod}

/-- The known moment and the candidate's, the later of the two. -/
def later (known : Option BalanceMoment) (candidate : BalanceMoment) : BalanceMoment := (known.map (max · candidate)).getD candidate

theorem latestOf_get (latest : Tree.Map BaselineKey BalanceMoment) (key key' : BaselineKey) (candidate : BalanceMoment) :
    (latestOf latest key candidate)[key']? = if key = key' then some (later latest[key]? candidate) else latest[key']? := by
  simp only [latestOf]
  cases hknown : latest[key]? with
  | none => simp [Tree.get_insert, later]
  | some known =>
    by_cases hlt : known < candidate
    · simp [hlt, Tree.get_insert, later, max_eq_right hlt.le]
    · by_cases hkey : key = key'
      · cases hkey
        simp [hlt, hknown, later, max_eq_left (not_lt.mp hlt)]
      · simp [hlt, hkey]

theorem later_comm (known : Option BalanceMoment) (a b : BalanceMoment) :
    later (some (later known a)) b = later (some (later known b)) a := by
  cases known with
  | none => simp [later, max_comm]
  | some known => simp [later, max_right_comm]

theorem latestOf_comm (latest : Tree.Map BaselineKey BalanceMoment) (key key' : BaselineKey) (a b : BalanceMoment) :
    latestOf (latestOf latest key a) key' b = latestOf (latestOf latest key' b) key a := by
  refine Std.ExtTreeMap.ext_getElem? fun k => ?_
  simp only [latestOf_get]
  by_cases hkey : key = key'
  · cases hkey
    simp only [if_true, later_comm]
    split <;> rfl
  · have hkey' : ¬key' = key := fun h => hkey h.symm
    by_cases hk : key = k <;> by_cases hk' : key' = k <;> simp_all

theorem latestMoments_perm (h : stated.Perm stated') : latestMoments stated period = latestMoments stated' period := by
  simp only [latestMoments, List.foldl_cons, List.foldl_nil]
  have hstep : ∀ (point : BalancePoint) (latest : Tree.Map BaselineKey BalanceMoment),
      (stated.filter fun candidate => candidate.at < .of period point).foldl
          (fun latest candidate => latestOf latest ⟨point, candidate.currency⟩ candidate.at) latest =
        (stated'.filter fun candidate => candidate.at < .of period point).foldl
          (fun latest candidate => latestOf latest ⟨point, candidate.currency⟩ candidate.at) latest := by
    intro point latest
    exact (h.filter _).foldl_eq' (fun x _ y _ latest => latestOf_comm latest _ _ _ _) latest
  rw [hstep, hstep]

/-- The step of the source over the figures stated at one moment. -/
def agree (acc : Option PostedMinor × Bool) (candidate : StatedBalance) : Option PostedMinor × Bool :=
  match acc.1 with
  | some claimed => if claimed ≠ candidate.claimed then (some claimed, true) else acc
  | none => (some candidate.claimed, acc.2)

theorem foldl_agree (claimed : PostedMinor) (contradicted : Bool) (here : List StatedBalance) :
    here.foldl agree (some claimed, contradicted) = (some claimed, contradicted || here.any (claimed ≠ ·.claimed)) := by
  induction here generalizing contradicted with
  | nil => simp
  | cons x here ih =>
    by_cases hx : claimed = x.claimed
    · simpa [agree, hx] using ih contradicted
    · simpa [agree, hx] using ih true

/-- A figure is agreed on where one is stated and no other is. -/
theorem agreedAt_eq_some {currency : CurrencyCode} {moment : BalanceMoment} {claimed : PostedMinor} :
    agreedAt stated currency moment = some claimed ↔
      (∃ x ∈ stated, x.currency = currency ∧ x.at = moment) ∧
        ∀ x ∈ stated, x.currency = currency → x.at = moment → x.claimed = claimed := by
  have hhere : ∀ {x}, x ∈ (stated.filter fun x => x.currency = currency ∧ x.at = moment) ↔
      x ∈ stated ∧ x.currency = currency ∧ x.at = moment := by simp
  have hagreed : agreedAt stated currency moment =
      if ((stated.filter fun x => x.currency = currency ∧ x.at = moment).foldl agree (none, false)).2 then none
      else ((stated.filter fun x => x.currency = currency ∧ x.at = moment).foldl agree (none, false)).1 := rfl
  rw [hagreed]
  generalize stated.filter (fun x => x.currency = currency ∧ x.at = moment) = here at hhere
  cases here with
  | nil =>
    have hnone : ¬∃ x ∈ stated, x.currency = currency ∧ x.at = moment := by
      rintro ⟨x, hx⟩
      exact List.not_mem_nil (hhere.mpr hx)
    simp [hnone]
  | cons first rest =>
    have hfirst := hhere.mp List.mem_cons_self
    simp only [List.foldl_cons, agree, foldl_agree, Bool.false_or]
    constructor
    · intro h
      split at h
      · cases h
      · next hsame =>
        cases h
        refine ⟨⟨first, hfirst⟩, fun x hx hcurrency hat => ?_⟩
        rcases List.mem_cons.mp (hhere.mpr ⟨hx, hcurrency, hat⟩) with rfl | hx
        · rfl
        · have hne := List.any_eq_false.mp (Bool.eq_false_iff.mpr hsame) x hx
          simp only [ne_eq, decide_not, Bool.not_eq_true', decide_eq_false_iff_not, not_not] at hne
          exact hne.symm
    · rintro ⟨-, hall⟩
      have hclaimed := hall first hfirst.1 hfirst.2.1 hfirst.2.2
      have hsame : rest.any (fun x => decide (first.claimed ≠ x.claimed)) = false := by
        refine List.any_eq_false.mpr fun x hx => ?_
        obtain ⟨hin, hcurrency, hat⟩ := hhere.mp (List.mem_cons_of_mem _ hx)
        simp [hclaimed, hall x hin hcurrency hat]
      rw [if_neg (by rw [hsame]; exact Bool.false_ne_true), hclaimed]

theorem agreedAt_perm (h : stated.Perm stated') (currency : CurrencyCode) (moment : BalanceMoment) :
    agreedAt stated currency moment = agreedAt stated' currency moment := by
  refine Option.ext fun claimed => ?_
  simp only [agreedAt_eq_some, h.mem_iff]

theorem chooseBaselines_perm (h : stated.Perm stated') : chooseBaselines stated period = chooseBaselines stated' period := by
  simp only [chooseBaselines, latestMoments_perm h, agreedAt_perm h]

end

/-! ### What a baseline is -/

section
variable {stated : List StatedBalance} {period : AssertionPeriod} {events events' added : List Event}
  {account : AccountId} {t t' : ObservedTotals} {key : BaselineKey} {baseline : Baseline}

/-- A baseline lies before the point it is a baseline of. -/
theorem latestMoments_before {moment : BalanceMoment} (h : (latestMoments stated period)[key]? = some moment) :
    moment < .of period key.at := by
  have hinner : ∀ (point : BalancePoint) (candidates : List StatedBalance) (latest : Tree.Map BaselineKey BalanceMoment),
      (∀ x ∈ candidates, x.at < .of period point) →
      (∀ (key : BaselineKey) moment, latest[key]? = some moment → moment < .of period key.at) →
      ∀ (key : BaselineKey) moment, (candidates.foldl (fun latest candidate =>
        latestOf latest ⟨point, candidate.currency⟩ candidate.at) latest)[key]? = some moment →
          moment < .of period key.at := by
    intro point candidates
    induction candidates with
    | nil => exact fun _ _ hlatest => hlatest
    | cons x candidates ih =>
      intro latest hall hlatest
      refine ih _ (fun y hy => hall y (List.mem_cons_of_mem _ hy)) fun key moment hget => ?_
      rw [latestOf_get] at hget
      split at hget
      · next hkey =>
        cases hkey
        cases hget
        have hx := hall x List.mem_cons_self
        simp only [later]
        cases hknown : latest[(⟨point, x.currency⟩ : BaselineKey)]? with
        | none => exact hx
        | some known => exact max_lt (hlatest _ _ hknown) hx
      · exact hlatest key moment hget
  have hfiltered : ∀ (point : BalancePoint), ∀ x ∈ stated.filter (fun candidate => candidate.at < .of period point),
      x.at < .of period point := fun point x hx => by simpa using (List.mem_filter.mp hx).2
  refine hinner .closing _ _ (hfiltered .closing) (hinner .opening _ _ (hfiltered .opening) ?_) key moment h
  intro key moment hget
  simp at hget

/-- The dates inside an earlier balance are inside the later one. -/
theorem upTo_of_covers {moment : BalanceMoment} {point : BalancePoint} (h : moment < .of period point) {date : Date}
    (hcovers : moment.covers date = true) : upTo period point date = true := by
  have hlex : moment.date < (BalanceMoment.of period point).date ∨
      moment.date = (BalanceMoment.of period point).date ∧ moment.inclusive < (BalanceMoment.of period point).inclusive :=
    Prod.Lex.toLex_lt_toLex.mp h
  obtain ⟨day, inclusive⟩ := moment
  cases point with
  | opening =>
    rcases hlex with hlt | ⟨-, hlt⟩
    · have hle : date ≤ day := by
        cases inclusive
        · exact le_of_lt (by simpa [BalanceMoment.covers] using hcovers)
        · simpa [BalanceMoment.covers] using hcovers
      exact decide_eq_true (lt_of_le_of_lt hle hlt)
    · exact absurd hlt (not_lt_bot (α := Bool))
  | closing =>
    have hle : date ≤ period.to := by
      rcases hlex with hlt | ⟨rfl, hlt⟩
      · cases inclusive
        · exact le_of_lt ((show date < day by simpa [BalanceMoment.covers] using hcovers).trans hlt)
        · exact (show date ≤ day by simpa [BalanceMoment.covers] using hcovers).trans hlt.le
      · cases inclusive
        · exact le_of_lt (of_decide_eq_true hcovers)
        · exact absurd hlt (lt_irrefl _)
    by_cases hbefore : date < period.from
    · simp [upTo, hbefore]
    · simp [upTo, AssertionPeriod.contains, hle, not_lt.mp hbefore]

theorem baseline_chosen (h : observe events account period = .ok t) (hbaseline : t.cashBaseline[key]? = some baseline) :
    (chooseBaselines (statedCashBalances events account) period)[key]? = some ⟨baseline.at, some baseline.claimed⟩ := by
  obtain ⟨s, hs, h⟩ := bind_ok.mp h
  cases h
  have hempty : s.totals.cashBaseline = ∅ := cashBaseline_of_run hs
  rw [recordBaselines_get _ _ (by exact hempty)] at hbaseline
  obtain ⟨⟨moment, claimed⟩, hchoice, hbaseline⟩ := Option.bind_eq_some_iff.mp hbaseline
  obtain ⟨amount, rfl, hbaseline⟩ := Option.bind_eq_some_iff.mp hbaseline
  obtain ⟨b, -, rfl⟩ := Option.map_eq_some_iff.mp hbaseline
  exact hchoice

/-! ### Added movements -/

theorem statedCashBalances_added (hperm : events'.Perm (events ++ added))
    (hadded : ∀ e ∈ added, statedCashBalance account e = none) :
    (statedCashBalances events' account).Perm (statedCashBalances events account) := by
  refine (hperm.filterMap _).trans ?_
  rw [List.filterMap_append, List.filterMap_eq_nil_iff.mpr hadded, List.append_nil]
  exact .refl _

/-- What is added on dates of a sum is added to the sum. -/
theorem cashMoved_added (hperm : events'.Perm (events ++ added)) {dates : Date → Bool}
    (hadded : ∀ e ∈ added, dated dates e = true) (key : CashKey) :
    cashMoved (events'.filter (dated dates)) key = cashMoved (events.filter (dated dates)) key + cashMoved added key := by
  rw [cashMoved_perm (hperm.filter _), List.filter_append, List.filter_eq_self.mpr hadded, cashMoved_append]

/-- A balance has a figure where something moved it. -/
theorem isSome_cashAt (h : Observes events account period t) (point : BalancePoint) (currency : CurrencyCode) :
    (t.cashAt point currency).isSome =
      (events.filter (dated (upTo period point))).any (·.movesCash ⟨account, currency⟩) := by
  have hfigure := congrArg Option.isSome (h.cash point currency)
  simp only [Option.isSome_map, cashFigure] at hfigure
  rw [hfigure]
  split
  · next hany => simp only [Option.isSome_some, hany]
  · next hany => simp only [Option.isSome_none, Bool.eq_false_iff.mpr hany]

theorem seen_of_cashAt (h : Observes events account period t) {point : BalancePoint} {currency : CurrencyCode}
    (hsome : (t.cashAt point currency).isSome = true) : t.eventsSeen ≠ 0 := by
  rw [isSome_cashAt h] at hsome
  obtain ⟨e, he, hmoves⟩ := List.any_eq_true.mp hsome
  obtain ⟨he, hdated⟩ := List.mem_filter.mp he
  refine h.seen.mpr ⟨e, he, ?_, Retraction.movesCash_touches hmoves⟩
  cases point with
  | closing => exact hdated
  | opening =>
    obtain ⟨date, hdate, hbefore⟩ := (Option.any_eq_true _ _).mp hdated
    simp only [upTo, decide_eq_true_eq] at hbefore
    simp [dated, hdate, upTo, hbefore]

/-- A claim that is compared by change: its balance, and the baseline it is measured from. -/
theorem cashBaselineFor_eq_some {point : BalancePoint} {currency : CurrencyCode} :
    cashBaselineFor t point currency = some baseline ↔ (t.cashAt point currency).isSome = true ∧
      t.cashAnchor[currency]? = some .unasserted ∧ t.cashBaseline[(⟨point, currency⟩ : BaselineKey)]? = some baseline := by
  simp only [cashBaselineFor]
  split
  · next hnot =>
    constructor
    · intro h
      cases h
    · rintro ⟨hsome, hanchor, -⟩
      rcases hnot with hnone | hne
      · simp [Option.isNone_iff_eq_none.mp hnone] at hsome
      · exact absurd hanchor hne
  · next hyes =>
    simp only [not_or, Bool.not_eq_true, Option.isNone_eq_false_iff, not_not] at hyes
    simp [hyes.1, hyes.2]

theorem checkClaim_change (h : Observes events account period t) {point : BalancePoint} {currency : CurrencyCode}
    {amount seen : PostedMinor} (hbaseline : cashBaselineFor t point currency = some baseline)
    (hseen : t.cashAt point currency = some seen) :
    checkClaim (.cashBalance currency amount point) t =
      compareMoney "change_since_stated_balance" currency (amount.saturatingSub baseline.claimed)
        (.saturate (seen.raw - baseline.observed.raw)) := by
  obtain ⟨hsome, hanchor, -⟩ := cashBaselineFor_eq_some.mp hbaseline
  simp only [checkClaim, if_neg (seen_of_cashAt h hsome), checkCash, hseen, hanchor, if_true, hbaseline]
  rfl

/-- Movements added within the moment that a claim is measured from leave its outcome as it is. -/
theorem missing_history_cancels (added : List Event) (hperm : events'.Perm (events ++ added)) {currency : CurrencyCode}
    {amount : PostedMinor} {point : BalancePoint} (h : observe events account period = .ok t)
    (hbaseline : cashBaselineFor t point currency = some baseline)
    (hadded : ∀ e ∈ added, statedCashBalance account e = none ∧ dated baseline.at.covers e = true)
    (h' : observe events' account period = .ok t') (hstart : t'.cashAnchor[currency]? = some .unasserted) :
    checkClaim (.cashBalance currency amount point) t' = checkClaim (.cashBalance currency amount point) t := by
  obtain ⟨hsome, -, hrecorded⟩ := cashBaselineFor_eq_some.mp hbaseline
  have hchosen := baseline_chosen h hrecorded
  have hobserves := observes_of_ok h
  have hobserves' := observes_of_ok h'
  have hbefore : baseline.at < .of period point := by
    simp only [chooseBaselines, Std.ExtTreeMap.getElem?_map] at hchosen
    obtain ⟨moment, hmoment, hchoice⟩ := Option.map_eq_some_iff.mp hchosen
    have hat : moment = baseline.at := congrArg Chosen.at hchoice
    rw [← hat]
    exact latestMoments_before hmoment
  have hinside : ∀ e ∈ added, dated (upTo period point) e = true := fun e he => by
    obtain ⟨date, hdate, hcovers⟩ := (Option.any_eq_true _ _).mp (hadded e he).2
    rw [dated_eq hdate]
    exact upTo_of_covers hbefore hcovers
  obtain ⟨seen, hseen⟩ := Option.isSome_iff_exists.mp hsome
  obtain ⟨seen', hseen'⟩ : ∃ seen', t'.cashAt point currency = some seen' := by
    rw [← Option.isSome_iff_exists, isSome_cashAt hobserves', (hperm.filter _).any_eq, List.filter_append, List.any_append,
      ← isSome_cashAt hobserves, hsome, Bool.true_or]
  obtain ⟨baseline', hrecorded', hclaimed, hmoved⟩ : ∃ baseline' : Baseline,
      t'.cashBaseline[(⟨point, currency⟩ : BaselineKey)]? = some baseline' ∧ baseline'.claimed = baseline.claimed ∧
        baseline'.observed.raw = baseline.observed.raw + cashMoved added ⟨account, currency⟩ := by
    have hold := hobserves.baseline ⟨point, currency⟩
    have hnew := hobserves'.baseline ⟨point, currency⟩
    rw [chooseBaselines_perm (statedCashBalances_added hperm fun e he => (hadded e he).1)] at hnew
    rw [hchosen] at hold hnew
    simp only [Option.bind_some, Option.map_some, hrecorded, Option.some.injEq, Prod.mk.injEq, true_and] at hold hnew
    obtain ⟨baseline', hrecorded', hpair⟩ := Option.map_eq_some_iff.mp hnew
    obtain ⟨hclaimed, hmoved⟩ := Prod.mk.inj hpair
    refine ⟨baseline', hrecorded', hclaimed, ?_⟩
    rw [hmoved, hold, cashMoved_added hperm fun e he => (hadded e he).2]
  have hbaseline' : cashBaselineFor t' point currency = some baseline' :=
    cashBaselineFor_eq_some.mpr ⟨by rw [hseen']; rfl, hstart, hrecorded'⟩
  have hshift : seen'.raw = seen.raw + cashMoved added ⟨account, currency⟩ := by
    have hold := hobserves.cashOr_eq currency point
    have hnew := hobserves'.cashOr_eq currency point
    simp only [cashOr, hseen, hseen', Option.getD_some] at hold hnew
    rw [hnew, hold, cashMoved_added hperm hinside]
  rw [checkClaim_change hobserves hbaseline hseen, checkClaim_change hobserves' hbaseline' hseen', hclaimed, hshift, hmoved,
    add_sub_add_right_eq_sub]

end

/-- Balances of ten and of seven roubles stated at the ends of two days; three were paid out in between. -/
def statedTwice : List Event :=
  [eventWith ⟨1⟩ ⟨1⟩ ⟨10⟩ 0 (.controlAssertion ⟨⟨10⟩, ⟨10⟩⟩ (.cashBalance .rub (.new 1000) .closing)) [],
    eventWith ⟨2⟩ ⟨1⟩ ⟨11⟩ 0 (.cashOut ⟨.new 300, .rub⟩) [.cash ⟨1⟩ ⟨.new (-300), .rub⟩],
    eventWith ⟨3⟩ ⟨1⟩ ⟨11⟩ 1 (.controlAssertion ⟨⟨11⟩, ⟨11⟩⟩ (.cashBalance .rub (.new 700) .closing)) []]

/-- A deposit of an earlier day that was not recorded before. -/
def foundDeposit : Event := eventWith ⟨4⟩ ⟨1⟩ ⟨5⟩ 0 (.cashIn ⟨.new 500, .rub⟩) [.cash ⟨1⟩ ⟨.new 500, .rub⟩]

/-- The deposit changes nothing about the second balance. -/
theorem found_deposit_cancels :
    ∃ t t', observe statedTwice ⟨1⟩ ⟨⟨11⟩, ⟨11⟩⟩ = .ok t ∧ observe (foundDeposit :: statedTwice) ⟨1⟩ ⟨⟨11⟩, ⟨11⟩⟩ = .ok t' ∧
      checkClaim (.cashBalance .rub (.new 700) .closing) t' = checkClaim (.cashBalance .rub (.new 700) .closing) t := by
  obtain ⟨t, h⟩ := exists_ok (show (observe statedTwice ⟨1⟩ ⟨⟨11⟩, ⟨11⟩⟩).isOk = true by decide)
  obtain ⟨t', h'⟩ := exists_ok
    (show (observe (foundDeposit :: statedTwice) ⟨1⟩ ⟨⟨11⟩, ⟨11⟩⟩).isOk = true by decide)
  have hbaseline : cashBaselineFor t .closing .rub = some ⟨⟨⟨10⟩, true⟩, .new 1000, .new 0⟩ :=
    read_of_ok h (fun t => cashBaselineFor t .closing .rub) (by decide)
  have hstart : t'.cashAnchor[CurrencyCode.rub]? = some .unasserted :=
    read_of_ok h' (fun t => t.cashAnchor[CurrencyCode.rub]?) (by decide)
  refine ⟨t, t', h, h', missing_history_cancels [foundDeposit] (List.perm_append_singleton _ _).symm h hbaseline ?_ h' hstart⟩
  intro e he
  cases List.mem_singleton.mp he
  exact ⟨rfl, rfl⟩

end MissingHistory
end Iaam
