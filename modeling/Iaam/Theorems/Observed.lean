import Iaam.Reconciliation.Observed
import Iaam.Theorems.Figures

/-! What `observe` gives, in terms of the events: each balance is a fold of its own over the events dated up to
its moment, and the totals of the interval come from the events of the account dated within it. -/

namespace Iaam
namespace Observed
open Outcome Runs Figures TransferPairing

/-- The event is dated, and its date is one of these. -/
def dated (dates : Date → Bool) (e : Event) : Bool := e.dates.effectiveDate.any dates

/-- The dates inside the balance at a point of the interval. -/
def upTo (period : AssertionPeriod) : BalancePoint → Date → Bool
  | .opening, date => decide (date < period.from)
  | .closing, date => decide (date < period.from) || period.contains date

/-- The day that the opening cut moves past. -/
def firstDay (period : AssertionPeriod) (date : Date) : Bool := decide (date = period.from) && period.contains date

/-! ### One event -/

section
variable {account : AccountId} {period : AssertionPeriod} {s s' : ObservedFold} {e : Event}

theorem applied_ok {b b' : Balances} : applied b e = .ok b' ↔ b.apply e = .ok b' := mapError_ok

theorem dateOf_ok {date : Date} : dateOf e = .ok date ↔ e.dates.effectiveDate = some date := by
  unfold dateOf
  cases e.dates.effectiveDate <;> simp

theorem applyBoundary_ok {date : Date} {b b' : Balances} :
    applyBoundary period date b e = .ok b' ↔ if date = period.from then b.apply e = .ok b' else b' = b := by
  unfold applyBoundary
  split
  · exact applied_ok
  · simp [eq_comm]

/-- What one event does to the fold, by where its date lies. -/
theorem observeEvent_cases (h : observeEvent account period s e = .ok s') :
    ∃ date, e.dates.effectiveDate = some date ∧ s.baselines.mapM (applyBaseline e date) = .ok s'.baselines ∧
      ((date < period.from ∧ s.opening.apply e = .ok s'.opening ∧ s.closing.apply e = .ok s'.closing ∧
          s'.boundary = s.boundary ∧ s'.totals = countBefore s.totals e account date) ∨
        (¬date < period.from ∧ period.contains date = true ∧ s'.opening = s.opening ∧
          s.closing.apply e = .ok s'.closing ∧
          (if date = period.from then s.boundary.apply e = .ok s'.boundary else s'.boundary = s.boundary) ∧
          accumulateWithin s.totals e account date = .ok s'.totals) ∨
        (¬date < period.from ∧ period.contains date = false ∧ s'.opening = s.opening ∧ s'.closing = s.closing ∧
          s'.boundary = s.boundary ∧ s'.totals = s.totals)) := by
  obtain ⟨date, hdate, h⟩ := bind_ok.mp h
  obtain ⟨baselines, hbaselines, h⟩ := bind_ok.mp h
  refine ⟨date, dateOf_ok.mp hdate, ?_⟩
  split at h
  · next hbefore =>
    obtain ⟨opening, hopening, h⟩ := bind_ok.mp h
    obtain ⟨closing, hclosing, h⟩ := bind_ok.mp h
    cases h
    exact ⟨hbaselines, Or.inl ⟨hbefore, applied_ok.mp hopening, applied_ok.mp hclosing, rfl, rfl⟩⟩
  · next hbefore =>
    split at h
    · next hin =>
      obtain ⟨closing, hclosing, h⟩ := bind_ok.mp h
      obtain ⟨boundary, hboundary, h⟩ := bind_ok.mp h
      obtain ⟨totals, htotals, h⟩ := bind_ok.mp h
      cases h
      exact ⟨hbaselines,
        Or.inr (Or.inl ⟨hbefore, hin, rfl, applied_ok.mp hclosing, applyBoundary_ok.mp hboundary, htotals⟩)⟩
    · next hin =>
      cases h
      exact ⟨hbaselines, Or.inr (Or.inr ⟨hbefore, by simpa using hin, rfl, rfl, rfl, rfl⟩)⟩

theorem dated_eq {dates : Date → Bool} {date : Date} (h : e.dates.effectiveDate = some date) :
    dated dates e = dates date := by simp [dated, h]

theorem accumulateWithin_ok {t t' : ObservedTotals} {date : Date} (h : accumulateWithin t e account date = .ok t') :
    if e.touches account then
      accumulateTotals t.toIntervalTotals e account = .ok t'.toIntervalTotals ∧ t'.before = t.before ∧
        t'.within = t.within.include date ∧ t'.cashBaseline = t.cashBaseline
    else t' = t := by
  unfold accumulateWithin at h
  split at h
  · next ht =>
    obtain ⟨interval, hinterval, h⟩ := bind_ok.mp h
    cases h
    exact (if_pos ht).mpr ⟨hinterval, rfl, rfl, rfl⟩
  · next ht =>
    cases h
    exact (if_neg ht).mpr rfl

end

/-! ### The parts of a fold -/

section
variable {account : AccountId} {period : AssertionPeriod} {s s' : ObservedFold} {events : List Event}

/-- A fold of balances is one of the parts that `observe` carries. -/
theorem part_of_run (part : ObservedFold → Balances) (dates : Date → Bool)
    (hstep : ∀ {s s' : ObservedFold} {e : Event} {date : Date}, observeEvent account period s e = .ok s' →
      e.dates.effectiveDate = some date → if dates date then (part s).apply e = .ok (part s') else part s' = part s)
    (h : events.foldlM (observeEvent account period) s = .ok s') :
    (events.filter (dated dates)).foldlM Balances.apply (part s) = .ok (part s') := by
  refine foldlM_ok.mpr ((foldlM_ok.mp h).view part (dated dates) (fun hr hin => ?_) fun hr hout => ?_)
  · obtain ⟨date, hdate, -⟩ := observeEvent_cases hr
    rw [dated_eq hdate] at hin
    exact (if_pos hin).mp (hstep hr hdate)
  · obtain ⟨date, hdate, -⟩ := observeEvent_cases hr
    rw [dated_eq hdate] at hout
    exact (if_neg (by simp [hout])).mp (hstep hr hdate)

theorem opening_of_run (h : events.foldlM (observeEvent account period) s = .ok s') :
    (events.filter (dated (upTo period .opening))).foldlM Balances.apply s.opening = .ok s'.opening := by
  refine part_of_run ObservedFold.opening _ (fun {s s' e date} hr hdate => ?_) h
  obtain ⟨date', hdate', -, hcases⟩ := observeEvent_cases hr
  cases hdate.symm.trans hdate'
  rcases hcases with ⟨hb, ho, -⟩ | ⟨hb, -, ho, -⟩ | ⟨hb, -, ho, -⟩ <;> simpa [upTo, hb] using ho

theorem closing_of_run (h : events.foldlM (observeEvent account period) s = .ok s') :
    (events.filter (dated (upTo period .closing))).foldlM Balances.apply s.closing = .ok s'.closing := by
  refine part_of_run ObservedFold.closing _ (fun {s s' e date} hr hdate => ?_) h
  obtain ⟨date', hdate', -, hcases⟩ := observeEvent_cases hr
  cases hdate.symm.trans hdate'
  rcases hcases with ⟨hb, -, hc, -⟩ | ⟨hb, hin, -, hc, -⟩ | ⟨hb, hin, -, hc, -⟩
  · simpa [upTo, hb] using hc
  · simpa [upTo, hin] using hc
  · simpa [upTo, hb, hin] using hc

theorem boundary_of_run (h : events.foldlM (observeEvent account period) s = .ok s') :
    (events.filter (dated (firstDay period))).foldlM Balances.apply s.boundary = .ok s'.boundary := by
  refine part_of_run ObservedFold.boundary _ (fun {s s' e date} hr hdate => ?_) h
  obtain ⟨date', hdate', -, hcases⟩ := observeEvent_cases hr
  cases hdate.symm.trans hdate'
  rcases hcases with ⟨hb, -, -, hc, -⟩ | ⟨hb, hin, -, -, hc, -⟩ | ⟨hb, hin, -, -, hc, -⟩
  · have hne : date ≠ period.from := ne_of_lt hb
    simpa [firstDay, hne] using hc
  · simpa [firstDay, hin] using hc
  · simpa [firstDay, hin] using hc

/-- Something of the account was seen exactly when one of its events is dated up to the end of the interval. -/
theorem eventsSeen_of_run (h : events.foldlM (observeEvent account period) s = .ok s') :
    s'.totals.eventsSeen ≠ 0 ↔ s.totals.eventsSeen ≠ 0 ∨
      ∃ e ∈ events, dated (upTo period .closing) e = true ∧ e.touches account = true := by
  refine (foldlM_ok.mp h).marks (P := fun s => s.totals.eventsSeen ≠ 0) fun {s e s'} hr => ?_
  obtain ⟨date, hdate, -, hcases⟩ := observeEvent_cases hr
  rw [dated_eq hdate]
  rcases hcases with ⟨hb, -, -, -, ht⟩ | ⟨hb, hin, -, -, -, ht⟩ | ⟨hb, hin, -, -, -, ht⟩
  · rw [ht]
    unfold countBefore
    split
    · next htouches => simp [ObservedTotals.eventsSeen, FoldSpan.include, upTo, hb, htouches]
    · next htouches => simp [htouches]
  · have ht := accumulateWithin_ok ht
    split at ht
    · next htouches =>
      obtain ⟨-, hbefore, hwithin, -⟩ := ht
      simp [ObservedTotals.eventsSeen, hbefore, hwithin, FoldSpan.include, upTo, hin, htouches]
    · next htouches => simp [ht, htouches]
  · simp [ht, upTo, hb, hin]

/-- The event is one of the account, dated within the interval. -/
def inside (account : AccountId) (period : AssertionPeriod) (e : Event) : Bool :=
  dated (fun date => !decide (date < period.from) && period.contains date) e && e.touches account

theorem interval_of_run (h : events.foldlM (observeEvent account period) s = .ok s') :
    (events.filter (inside account period)).foldlM (fun t e => accumulateTotals t e account) s.totals.toIntervalTotals =
      .ok s'.totals.toIntervalTotals := by
  refine foldlM_ok.mpr ((foldlM_ok.mp h).view (fun s => s.totals.toIntervalTotals) _ ?_ ?_)
  · intro s e s' hr hin
    obtain ⟨date, hdate, -, hcases⟩ := observeEvent_cases hr
    rw [inside, dated_eq hdate] at hin
    obtain ⟨hin, htouches⟩ := Bool.and_eq_true_iff.mp hin
    rcases hcases with ⟨hb, -⟩ | ⟨-, -, -, -, -, ht⟩ | ⟨-, hout, -⟩
    · simp [hb] at hin
    · exact ((if_pos htouches).mp (accumulateWithin_ok ht)).1
    · simp [hout] at hin
  · intro s e s' hr hout
    obtain ⟨date, hdate, -, hcases⟩ := observeEvent_cases hr
    rw [inside, dated_eq hdate] at hout
    rcases hcases with ⟨-, -, -, -, ht⟩ | ⟨hb, hin, -, -, -, ht⟩ | ⟨-, -, -, -, -, ht⟩
    · simp only [ht, countBefore]
      split <;> rfl
    · have htouches : e.touches account = false := by simpa [hb, hin] using hout
      exact congrArg ObservedTotals.toIntervalTotals ((if_neg (by simp [htouches])).mp (accumulateWithin_ok ht))
    · rw [ht]

/-- The baselines are recorded after the fold. -/
theorem cashBaseline_of_run (h : events.foldlM (observeEvent account period) s = .ok s') :
    s'.totals.cashBaseline = s.totals.cashBaseline := by
  refine (foldlM_ok.mp h).keeps (P := fun t => t.totals.cashBaseline = s.totals.cashBaseline) (fun hs hr => ?_) rfl
  obtain ⟨date, -, -, hcases⟩ := observeEvent_cases hr
  rw [← hs]
  rcases hcases with ⟨-, -, -, -, ht⟩ | ⟨-, -, -, -, -, ht⟩ | ⟨-, -, -, -, -, ht⟩
  · rw [ht, countBefore]
    split <;> rfl
  · have ht := accumulateWithin_ok ht
    split at ht
    · exact ht.2.2.2
    · rw [ht]
  · rw [ht]

/-! ### Baselines -/

/-- The balance folded up to a moment. -/
def foldAt (folds : List (BalanceMoment × Balances)) (moment : BalanceMoment) : Option Balances :=
  (folds.find? fun fold => fold.1 = moment).map Prod.snd

theorem foldAt_of_mapM {e : Event} {date : Date} {folds folds' : List (BalanceMoment × Balances)} {moment : BalanceMoment}
    {b : Balances} (h : folds.mapM (applyBaseline e date) = .ok folds') (hb : foldAt folds moment = some b) :
    ∃ b', foldAt folds' moment = some b' ∧ if moment.covers date then b.apply e = .ok b' else b' = b := by
  induction folds generalizing folds' with
  | nil => cases hb
  | cons fold folds ih =>
    rw [List.mapM_cons] at h
    obtain ⟨fold', hfold, h⟩ := bind_ok.mp h
    obtain ⟨rest', hrest, h⟩ := bind_ok.mp h
    cases h
    have happlied : fold'.1 = fold.1 ∧
        if fold.1.covers date then fold.2.apply e = .ok fold'.2 else fold'.2 = fold.2 := by
      unfold applyBaseline at hfold
      split at hfold
      · next hcovers =>
        obtain ⟨b', hb', hfold⟩ := bind_ok.mp hfold
        cases hfold
        exact ⟨rfl, (if_pos hcovers).mpr (applied_ok.mp hb')⟩
      · next hcovers =>
        cases hfold
        exact ⟨rfl, (if_neg hcovers).mpr rfl⟩
    obtain ⟨hmoment, happlied⟩ := happlied
    by_cases hm : fold.1 = moment
    · subst hm
      simp only [foldAt, List.find?_cons, decide_true, Option.map_some, Option.some.injEq] at hb
      subst hb
      exact ⟨fold'.2, by simp [foldAt, hmoment], happlied⟩
    · have hb : foldAt folds moment = some b := by simpa [foldAt, hm] using hb
      obtain ⟨b', hb', hstep⟩ := ih hrest hb
      exact ⟨b', by simpa [foldAt, hmoment, hm] using hb', hstep⟩

theorem foldAt_of_run {moment : BalanceMoment} {b : Balances}
    (h : events.foldlM (observeEvent account period) s = .ok s') (hb : foldAt s.baselines moment = some b) :
    ∃ b', foldAt s'.baselines moment = some b' ∧
      (events.filter (dated moment.covers)).foldlM Balances.apply b = .ok b' := by
  induction events generalizing s b with
  | nil =>
    cases h
    exact ⟨b, hb, rfl⟩
  | cons e events ih =>
    obtain ⟨s₁, hstep, h⟩ := bind_ok.mp h
    obtain ⟨date, hdate, hbaselines, -⟩ := observeEvent_cases hstep
    obtain ⟨b₁, hb₁, happlied⟩ := foldAt_of_mapM hbaselines hb
    obtain ⟨b', hb', hfold⟩ := ih h hb₁
    refine ⟨b', hb', ?_⟩
    split at happlied
    · next hcovers =>
      rw [List.filter_cons_of_pos (by rw [dated_eq hdate]; exact hcovers)]
      exact bind_ok.mpr ⟨b₁, happlied, hfold⟩
    · next hcovers =>
      rw [List.filter_cons_of_neg (by rw [dated_eq hdate]; exact hcovers), ← happlied]
      exact hfold

end

/-! ### What is recorded of a fold -/

section
variable {account : AccountId}

theorem snapshotCash_get (b : Balances) (currency : CurrencyCode) :
    (snapshotCash b account)[currency]? = b.cash[(⟨account, currency⟩ : CashKey)]? := by
  refine Tree.get_copy (fun key => decide (key.account = account)) CashKey.currency (k := ⟨account, currency⟩) ?_
    (by simp)
  rintro ⟨a, c⟩ ⟨a', c'⟩ ha ha' rfl
  cases of_decide_eq_true ha
  cases of_decide_eq_true ha'
  rfl

theorem snapshotPositions_get (b : Balances) (instrument : InstrumentId) :
    (snapshotPositions b account)[instrument]? = b.positions[(⟨account, instrument⟩ : PositionKey)]? := by
  refine Tree.get_copy (fun key => decide (key.account = account)) PositionKey.instrument (k := ⟨account, instrument⟩) ?_
    (by simp)
  rintro ⟨a, i⟩ ⟨a', i'⟩ ha ha' rfl
  cases of_decide_eq_true ha
  cases of_decide_eq_true ha'
  rfl

/-- Recording a value for each of a list of keys. -/
theorem get_recorded {κ ν : Type} [LinearOrder κ] (f : κ → ν) (m : Tree.Map κ ν) {keys : List κ} {k : κ}
    (hk : k ∈ keys) : (keys.foldl (fun into k => into.insert k (f k)) m)[k]? = some (f k) := by
  refine (Tree.get_foldl_insert id (fun k => some (f k)) fun x _ y _ h => by rw [show x = y from h]).trans ?_
  obtain ⟨k', hfind⟩ := Option.isSome_iff_exists.mp
    (List.find?_isSome.mpr ⟨k, hk, by simp⟩ : (keys.find? fun x => id x = k).isSome)
  have hkey : k' = k := by simpa using List.find?_some hfind
  rw [hfind, hkey]
  rfl

/-- The baseline of a choice: there when the sources agree about it and its moment was folded to. -/
def baselineOf (folds : List (BalanceMoment × Balances)) (account : AccountId) (entry : BaselineKey × Chosen) :
    Option Baseline :=
  entry.2.claimed.bind fun claimed => (foldAt folds entry.2.at).map fun b =>
    ⟨entry.2.at, claimed, b.cashAt ⟨account, entry.1.currency⟩⟩

theorem recordBaseline_eq (folds : List (BalanceMoment × Balances)) (account : AccountId) (into : Tree.Map BaselineKey Baseline)
    (entry : BaselineKey × Chosen) :
    recordBaseline folds account into entry = (baselineOf folds account entry).elim into (into.insert entry.1) := by
  unfold recordBaseline baselineOf foldAt Balances.cashAt
  simp only [snapshotCash_get]
  cases entry.2.claimed <;> cases folds.find? (fun fold => decide (fold.1 = entry.2.at)) <;> rfl

theorem recordBaselines_get (chosen : Tree.Map BaselineKey Chosen) (folds : List (BalanceMoment × Balances))
    {t : ObservedTotals} (ht : t.cashBaseline = ∅) (key : BaselineKey) :
    (recordBaselines chosen folds account t).cashBaseline[key]? =
      chosen[key]?.bind fun choice => baselineOf folds account (key, choice) := by
  unfold recordBaselines
  rw [ht, funext fun into => funext (recordBaseline_eq folds account into)]
  have hagree : ∀ x ∈ chosen.toList, ∀ y ∈ chosen.toList, x.1 = y.1 →
      baselineOf folds account x = baselineOf folds account y := by
    rintro ⟨k, x⟩ hx ⟨k', y⟩ hy rfl
    have hx := Std.ExtTreeMap.mem_toList_iff_getElem?_eq_some.mp hx
    rw [Std.ExtTreeMap.mem_toList_iff_getElem?_eq_some.mp hy] at hx
    rw [Option.some.inj hx]
  refine (Tree.get_foldl_insert _ _ hagree).trans ?_
  rw [Tree.find_toList]
  cases chosen[key]? <;> simp

theorem mem_distinctMoments {chosen : Tree.Map BaselineKey Chosen} {key : BaselineKey} {choice : Chosen}
    (h : chosen[key]? = some choice) (hclaimed : choice.claimed.isSome = true) :
    choice.at ∈ distinctMoments chosen := by
  have hin : (key, choice) ∈ chosen.toList := Std.ExtTreeMap.mem_toList_iff_getElem?_eq_some.mpr h
  unfold distinctMoments
  rw [List.mem_dedup, List.mem_insertionSort]
  exact List.mem_map_of_mem (List.mem_filter.mpr ⟨hin, hclaimed⟩)

theorem foldAt_start {moments : List BalanceMoment} {moment : BalanceMoment} (h : moment ∈ moments) :
    foldAt (moments.map fun moment => (moment, Balances.empty)) moment = some .empty := by
  induction moments with
  | nil => cases h
  | cons first moments ih =>
    by_cases hfirst : first = moment
    · simp [foldAt, hfirst]
    · have h : moment ∈ moments := (List.mem_cons.mp h).resolve_left (Ne.symm hfirst)
      simpa [foldAt, hfirst] using ih h

end

/-! ### The observed quantities -/

/-- The cash figure of the events with these dates: the sum of what they move, when they move any. -/
def cashFigure (events : List Event) (dates : Date → Bool) (key : CashKey) : Option Int :=
  if (events.filter (dated dates)).any (·.movesCash key) then some (cashMoved (events.filter (dated dates)) key)
  else none

def positionFigure (events : List Event) (dates : Date → Bool) (key : PositionKey) : Option ℚ :=
  if (events.filter (dated dates)).any (·.movesPosition key) then
    some (quantityMoved (events.filter (dated dates)) key)
  else none

/-- The totals are those of the events. -/
structure Observes (events : List Event) (account : AccountId) (period : AssertionPeriod) (t : ObservedTotals) :
    Prop where
  cash : ∀ point c, (t.cashAt point c).map PostedMinor.raw = cashFigure events (upTo period point) ⟨account, c⟩
  position : ∀ point i, (t.positionAt point i).map Dec.val = positionFigure events (upTo period point) ⟨account, i⟩
  cashAnchor : ∀ point c, (t.cashAt point c).isSome = true →
    t.cashAnchor[c]? = some ((OpeningAnchors.of events).cash account c)
  positionAnchor : ∀ point i, (t.positionAt point i).isSome = true →
    t.positionAnchor[i]? = some ((OpeningAnchors.of events).position account i)
  baseline : ∀ key : BaselineKey, t.cashBaseline[key]?.map (fun b => (b.claimed, b.observed.raw)) =
    (chooseBaselines (statedCashBalances events account) period)[key]?.bind fun choice =>
      choice.claimed.map fun claimed =>
        (claimed, cashMoved (events.filter (dated choice.at.covers)) ⟨account, key.currency⟩)
  cashExcluded : ∀ c, t.cashExcludedFromOpening[c]?.map PostedMinor.raw =
    cashFigure events (firstDay period) ⟨account, c⟩
  positionExcluded : ∀ i, t.positionExcludedFromOpening[i]?.map Dec.val =
    positionFigure events (firstDay period) ⟨account, i⟩
  seen : t.eventsSeen ≠ 0 ↔ ∃ e ∈ events, dated (upTo period .closing) e = true ∧ e.touches account = true
  interval : (events.filter (inside account period)).foldlM (fun t e => accumulateTotals t e account)
    ObservedTotals.empty.toIntervalTotals = .ok t.toIntervalTotals

theorem observes_of_ok {events : List Event} {account : AccountId} {period : AssertionPeriod} {t : ObservedTotals}
    (h : observe events account period = .ok t) : Observes events account period t := by
  obtain ⟨s, hs, h⟩ := bind_ok.mp h
  cases h
  have hopening := opening_of_run hs
  have hclosing := closing_of_run hs
  have hboundary := boundary_of_run hs
  constructor
  case cash =>
    rintro (_ | _) c
    · exact (congrArg _ (snapshotCash_get s.opening c)).trans (cash_of_fold hopening _)
    · exact (congrArg _ (snapshotCash_get s.closing c)).trans (cash_of_fold hclosing _)
  case position =>
    rintro (_ | _) i
    · exact (congrArg _ (snapshotPositions_get s.opening i)).trans (position_of_fold hopening _)
    · exact (congrArg _ (snapshotPositions_get s.closing i)).trans (position_of_fold hclosing _)
  case cashAnchor =>
    intro point c hsome
    refine get_recorded (fun c => (OpeningAnchors.of events).cash account c) _ (List.mem_append.mpr ?_)
    cases point with
    | opening => exact Or.inl (Std.ExtTreeMap.mem_keys.mpr (Std.ExtTreeMap.mem_iff_isSome_getElem?.mpr hsome))
    | closing => exact Or.inr (Std.ExtTreeMap.mem_keys.mpr (Std.ExtTreeMap.mem_iff_isSome_getElem?.mpr hsome))
  case positionAnchor =>
    intro point i hsome
    refine get_recorded (fun i => (OpeningAnchors.of events).position account i) _ (List.mem_append.mpr ?_)
    cases point with
    | opening => exact Or.inl (Std.ExtTreeMap.mem_keys.mpr (Std.ExtTreeMap.mem_iff_isSome_getElem?.mpr hsome))
    | closing => exact Or.inr (Std.ExtTreeMap.mem_keys.mpr (Std.ExtTreeMap.mem_iff_isSome_getElem?.mpr hsome))
  case baseline =>
    intro key
    have hempty : s.totals.cashBaseline = ∅ := cashBaseline_of_run hs
    rw [recordBaselines_get _ _ (by exact hempty)]
    cases hchoice : (chooseBaselines (statedCashBalances events account) period)[key]? with
    | none => rfl
    | some choice =>
      cases hclaimed : choice.claimed with
      | none => simp [baselineOf, hclaimed]
      | some claimed =>
        have hmoment := mem_distinctMoments hchoice (by rw [hclaimed]; rfl)
        obtain ⟨b, hb, hfold⟩ := foldAt_of_run hs (foldAt_start hmoment)
        simp [baselineOf, hclaimed, hb, cashAt_of_fold hfold]
  case cashExcluded => exact fun c => (congrArg _ (snapshotCash_get s.boundary c)).trans (cash_of_fold hboundary _)
  case positionExcluded =>
    exact fun i => (congrArg _ (snapshotPositions_get s.boundary i)).trans (position_of_fold hboundary _)
  case seen =>
    refine (eventsSeen_of_run hs).trans (or_iff_right ?_)
    simp [ObservedTotals.eventsSeen, ObservedTotals.empty, FoldSpan.empty]
  case interval => exact interval_of_run hs

end Observed
end Iaam
