import Iaam.Reconciliation.Check
import Iaam.Theorems.Observed

/-! What the outcome of a claim says of the events: a balance is compared as a level where the start of its fold is
asserted, and as the change since an earlier stated balance where it is not. -/

namespace Iaam
namespace Comparison
open Outcome Figures Observed TransferPairing

/-! ### Comparisons -/

theorem saturate_raw (a : PostedMinor) : PostedMinor.saturate a.raw = a := by
  have hfits : -2 ^ 63 ≤ a.raw ∧ a.raw < 2 ^ 63 := a.fits
  refine PostedMinor.ext_raw ?_
  show max (-2 ^ 63) (min a.raw (2 ^ 63 - 1)) = a.raw
  omega

/-- The claim was compared: it matched or it did not. -/
inductive Decided : ClaimOutcome → Prop
  | matched : Decided .matched
  | discrepant (d : Discrepancy) : Decided (.discrepant d)

theorem Decided.ne {outcome : ClaimOutcome} (h : Decided outcome) (reason : NotComparable) :
    outcome ≠ .notComparable reason := by
  cases h <;> simp

theorem Decided.ne' {outcome : ClaimOutcome} (h : Decided outcome) {reason : NotComparable} :
    .notComparable reason ≠ outcome := (h.ne reason).symm

theorem decided_money (field : String) (currency : CurrencyCode) (claimed observed : PostedMinor) :
    Decided (compareMoney field currency claimed observed) := by
  unfold compareMoney
  split
  · exact .matched
  · exact .discrepant _

theorem decided_quantity (claimed observed : Quantity) : Decided (compareQuantity claimed observed) := by
  unfold compareQuantity
  split
  · exact .matched
  · exact .discrepant _

theorem Decided.named {outcome : ClaimOutcome} (h : Decided outcome) (point : BalancePoint)
    (excluded : Option ClaimValue) : Decided (nameBoundaryReason outcome point excluded) := by
  cases h with
  | matched => exact .matched
  | discrepant d =>
    simp only [nameBoundaryReason]
    split <;> exact .discrepant _

/-- What an outcome says was compared: nothing but the claim itself when it matched. -/
structure Said where
  field : Option String
  claimed : Option ClaimValue
  observed : Option ClaimValue
  deriving DecidableEq

def said : ClaimOutcome → Said
  | .discrepant d => ⟨some d.field, some d.claimed, some d.observed⟩
  | .matched | .notComparable _ | .excepted _ => ⟨none, none, none⟩

theorem said_named (outcome : ClaimOutcome) (point : BalancePoint) (excluded : Option ClaimValue) :
    said (nameBoundaryReason outcome point excluded) = said outcome := by
  cases outcome with
  | discrepant d =>
    simp only [nameBoundaryReason]
    split <;> rfl
  | matched | notComparable _ | excepted _ => rfl

theorem said_money (field : String) (currency : CurrencyCode) (claimed observed : PostedMinor) :
    said (compareMoney field currency claimed observed) =
      if claimed = observed then ⟨none, none, none⟩
      else ⟨some field, some (.money claimed currency), some (.money observed currency)⟩ := by
  unfold compareMoney
  split <;> rfl

theorem said_quantity (claimed observed : Quantity) :
    said (compareQuantity claimed observed) =
      if claimed = observed then ⟨none, none, none⟩
      else ⟨some "quantity", some (.quantity claimed), some (.quantity observed)⟩ := by
  unfold compareQuantity
  split <;> rfl

theorem compareMoney_self (field : String) (currency : CurrencyCode) (amount : PostedMinor) :
    compareMoney field currency amount amount = .matched := if_pos rfl

/-- Two levels compared with one amount give one outcome exactly when they are one. -/
theorem level_eq_iff {currency : CurrencyCode} {amount held held' : PostedMinor} {point : BalancePoint}
    {excluded : Option ClaimValue} :
    nameBoundaryReason (compareMoney "amount" currency amount held) point excluded =
      nameBoundaryReason (compareMoney "amount" currency amount held') point excluded ↔ held = held' := by
  refine ⟨fun h => ?_, fun h => by rw [h]⟩
  have hsaid := congrArg said h
  rw [said_named, said_named, said_money, said_money] at hsaid
  by_cases hh : amount = held <;> by_cases hh' : amount = held'
  · exact hh.symm.trans hh'
  all_goals simp_all

theorem quantity_eq_iff {quantity held held' : Quantity} {point : BalancePoint} {excluded : Option ClaimValue} :
    nameBoundaryReason (compareQuantity quantity held) point excluded =
      nameBoundaryReason (compareQuantity quantity held') point excluded ↔ held = held' := by
  refine ⟨fun h => ?_, fun h => by rw [h]⟩
  have hsaid := congrArg said h
  rw [said_named, said_named, said_quantity, said_quantity] at hsaid
  by_cases hh : quantity = held <;> by_cases hh' : quantity = held'
  · exact hh.symm.trans hh'
  all_goals simp_all

theorem change_eq_iff {field : String} {currency : CurrencyCode} {claimed claimed' observed observed' : PostedMinor} :
    compareMoney field currency claimed observed = compareMoney field currency claimed' observed' ↔
      (claimed = observed ∧ claimed' = observed') ∨ (claimed = claimed' ∧ observed = observed') := by
  constructor
  · intro h
    have hsaid := congrArg said h
    rw [said_money, said_money] at hsaid
    by_cases hh : claimed = observed <;> by_cases hh' : claimed' = observed' <;> simp_all
  · rintro (⟨rfl, rfl⟩ | ⟨rfl, rfl⟩)
    · rw [compareMoney_self, compareMoney_self]
    · rfl

/-- A level and a change are told apart by the field, unless both match. -/
theorem level_eq_change_iff {currency : CurrencyCode} {amount held claimed observed : PostedMinor}
    {point : BalancePoint} {excluded : Option ClaimValue} :
    nameBoundaryReason (compareMoney "amount" currency amount held) point excluded =
      compareMoney "change_since_stated_balance" currency claimed observed ↔
        amount = held ∧ claimed = observed := by
  constructor
  · intro h
    have hsaid := congrArg said h
    rw [said_named, said_money, said_money] at hsaid
    by_cases hh : amount = held <;> by_cases hh' : claimed = observed <;> simp_all
  · rintro ⟨rfl, rfl⟩
    rw [compareMoney_self, compareMoney_self]
    rfl

/-! ### What a balance is compared with -/

/-- What the journal sets against a claimed cash balance: nothing, where the start is not asserted and no earlier
    balance is stated; the level; or the movement since an earlier stated balance. -/
inductive CashComparison where
  | unstated
  | level (held : Int)
  | change (stated : PostedMinor) (moved : Int)

/-- The earlier stated balance that a claim can be measured from, and what the journal had moved by then. -/
def statedBefore (events : List Event) (account : AccountId) (period : AssertionPeriod) (currency : CurrencyCode)
    (point : BalancePoint) : Option (PostedMinor × Int) :=
  (chooseBaselines (statedCashBalances events account) period)[(⟨point, currency⟩ : BaselineKey)]?.bind fun choice =>
    choice.claimed.map fun claimed =>
      (claimed, cashMoved (events.filter (dated choice.at.covers)) ⟨account, currency⟩)

def cashComparison (events : List Event) (account : AccountId) (period : AssertionPeriod) (currency : CurrencyCode)
    (point : BalancePoint) : CashComparison :=
  let rows := events.filter (dated (upTo period point))
  let moved := cashMoved rows ⟨account, currency⟩
  if rows.any (·.movesCash ⟨account, currency⟩) ∧ (OpeningAnchors.of events).cash account currency = .unasserted then
    match statedBefore events account period currency point with
    | some (claimed, earlier) => .change claimed (moved - earlier)
    | none => .unstated
  else .level moved

/-- The outcome of a comparison. -/
def CashComparison.outcome (currency : CurrencyCode) (amount : PostedMinor) (point : BalancePoint)
    (excluded : Option ClaimValue) : CashComparison → ClaimOutcome
  | unstated => .notComparable .openingNotAsserted
  | level held => nameBoundaryReason (compareMoney "amount" currency amount (.saturate held)) point excluded
  | change stated moved =>
    compareMoney "change_since_stated_balance" currency (amount.saturatingSub stated) (.saturate moved)

theorem cashOn_eq_zero {leg : Leg} {key : CashKey} (h : leg.movesCash key = false) : leg.cashOn key = 0 := by
  unfold Leg.movesCash at h
  unfold Leg.cashOn
  cases hm : leg.cashEffect with
  | none => rfl
  | some money =>
    rw [hm] at h
    refine if_neg fun hkey => ?_
    cases key
    simp_all

theorem quantityOn_eq_zero {leg : Leg} {key : PositionKey} (h : leg.movesPosition key = false) :
    leg.quantityOn key = 0 := by
  unfold Leg.movesPosition at h
  unfold Leg.quantityOn
  cases hq : leg.quantity <;> cases hi : leg.instrument <;> simp_all

theorem cashMoved_eq_zero {rows : List Event} {key : CashKey} (h : rows.any (·.movesCash key) = false) :
    cashMoved rows key = 0 := by
  refine List.sum_eq_zero fun effect heffect => ?_
  obtain ⟨e, he, rfl⟩ := List.mem_map.mp heffect
  refine List.sum_eq_zero fun moved hmoved => ?_
  obtain ⟨leg, hleg, rfl⟩ := List.mem_map.mp hmoved
  have hnone := List.any_eq_false.mp h e he
  exact cashOn_eq_zero (Bool.eq_false_iff.mpr (List.any_eq_false.mp (Bool.eq_false_iff.mpr hnone) leg hleg))

theorem quantityMoved_eq_zero {rows : List Event} {key : PositionKey} (h : rows.any (·.movesPosition key) = false) :
    quantityMoved rows key = 0 := by
  refine List.sum_eq_zero fun effect heffect => ?_
  obtain ⟨e, he, rfl⟩ := List.mem_map.mp heffect
  refine List.sum_eq_zero fun moved hmoved => ?_
  obtain ⟨leg, hleg, rfl⟩ := List.mem_map.mp hmoved
  have hnone := List.any_eq_false.mp h e he
  exact quantityOn_eq_zero (Bool.eq_false_iff.mpr (List.any_eq_false.mp (Bool.eq_false_iff.mpr hnone) leg hleg))

section
variable {events : List Event} {account : AccountId} {period : AssertionPeriod} {t : ObservedTotals}

/-- The cash claim is judged by what the events are compared as. -/
theorem checkCash_eq (h : Observes events account period t) (currency : CurrencyCode) (amount : PostedMinor)
    (point : BalancePoint) :
    checkCash currency amount point t = (cashComparison events account period currency point).outcome currency amount
      point (t.cashExcludedFromOpening[currency]?.map (ClaimValue.money · currency)) := by
  have hfigure := h.cash point currency
  have hbaseline : t.cashBaseline[(⟨point, currency⟩ : BaselineKey)]?.map (fun b => (b.claimed, b.observed.raw)) =
      statedBefore events account period currency point := h.baseline ⟨point, currency⟩
  unfold cashFigure at hfigure
  unfold checkCash cashComparison
  cases hseen : t.cashAt point currency with
  | none =>
    rw [hseen] at hfigure
    cases hany : (events.filter (dated (upTo period point))).any (·.movesCash ⟨account, currency⟩) with
    | true => simp [hany] at hfigure
    | false =>
      simp only [hany, Bool.false_eq_true, false_and, if_false, CashComparison.outcome, cashMoved_eq_zero hany]
      rfl
  | some seen =>
    rw [hseen] at hfigure
    have hanchor := h.cashAnchor point currency (by rw [hseen]; rfl)
    cases hany : (events.filter (dated (upTo period point))).any (·.movesCash ⟨account, currency⟩) with
    | false => simp [hany] at hfigure
    | true =>
      simp only [hany, if_true, Option.map_some, Option.some.injEq] at hfigure
      cases hstart : (OpeningAnchors.of events).cash account currency with
      | asserted =>
        rw [hstart] at hanchor
        simp only [hanchor, hany, Option.some.injEq, reduceCtorEq, and_false, if_false, CashComparison.outcome,
          ← hfigure, saturate_raw]
        rfl
      | unasserted =>
        rw [hstart] at hanchor
        have hfor : cashBaselineFor t point currency = t.cashBaseline[(⟨point, currency⟩ : BaselineKey)]? := by
          simp [cashBaselineFor, hseen, hanchor]
        simp only [hanchor, hany, and_self, if_true, hfor]
        cases hb : t.cashBaseline[(⟨point, currency⟩ : BaselineKey)]? with
        | none =>
          rw [hb] at hbaseline
          rw [← hbaseline]
          rfl
        | some baseline =>
          rw [hb] at hbaseline
          rw [← hbaseline]
          simp only [Option.map_some, CashComparison.outcome, compareChange, PostedMinor.saturatingSub, hfigure]

/-- What the journal sets against a claimed quantity; nothing, where the start is not asserted. -/
def positionComparison (events : List Event) (account : AccountId) (period : AssertionPeriod)
    (instrument : InstrumentId) (point : BalancePoint) : Option ℚ :=
  let rows := events.filter (dated (upTo period point))
  if rows.any (·.movesPosition ⟨account, instrument⟩) ∧
      (OpeningAnchors.of events).position account instrument = .unasserted then none
  else some (quantityMoved rows ⟨account, instrument⟩)

/-- The position claim is judged by what the events are compared as. -/
theorem checkPosition_eq (h : Observes events account period t) (instrument : InstrumentId) (quantity : Quantity)
    (point : BalancePoint) :
    match positionComparison events account period instrument point with
    | none => checkPosition instrument quantity point t = .notComparable .openingNotAsserted
    | some held => ∃ seen : Quantity, seen.val = held ∧ checkPosition instrument quantity point t =
        nameBoundaryReason (compareQuantity quantity seen) point
          (t.positionExcludedFromOpening[instrument]?.map .quantity) := by
  have hfigure := h.position point instrument
  unfold positionFigure at hfigure
  unfold checkPosition positionComparison
  cases hseen : t.positionAt point instrument with
  | none =>
    rw [hseen] at hfigure
    cases hany : (events.filter (dated (upTo period point))).any (·.movesPosition ⟨account, instrument⟩) with
    | true => simp [hany] at hfigure
    | false =>
      simp only [hany, Bool.false_eq_true, false_and, if_false]
      exact ⟨.zero, (quantityMoved_eq_zero hany).symm, rfl⟩
  | some seen =>
    rw [hseen] at hfigure
    have hanchor := h.positionAnchor point instrument (by rw [hseen]; rfl)
    cases hany : (events.filter (dated (upTo period point))).any (·.movesPosition ⟨account, instrument⟩) with
    | false => simp [hany] at hfigure
    | true =>
      simp only [hany, if_true, Option.map_some, Option.some.injEq] at hfigure
      cases hstart : (OpeningAnchors.of events).position account instrument with
      | asserted =>
        rw [hstart] at hanchor
        simp only [hanchor, hany, Option.some.injEq, reduceCtorEq, and_false, if_false]
        exact ⟨seen, hfigure, rfl⟩
      | unasserted =>
        rw [hstart] at hanchor
        simp only [hanchor, hany, and_self, if_true]

/-- The sum of a figure is a posted amount. -/
theorem exists_held (h : Observes events account period t) (point : BalancePoint) (currency : CurrencyCode) :
    ∃ a : PostedMinor, a.raw = cashMoved (events.filter (dated (upTo period point))) ⟨account, currency⟩ := by
  have hfigure := h.cash point currency
  unfold cashFigure at hfigure
  cases hany : (events.filter (dated (upTo period point))).any (·.movesCash ⟨account, currency⟩) with
  | false => exact ⟨.zero, (cashMoved_eq_zero hany).symm⟩
  | true =>
    rw [if_pos hany] at hfigure
    obtain ⟨a, -, ha⟩ := Option.map_eq_some_iff.mp hfigure
    exact ⟨a, ha⟩

theorem held_of_level {currency : CurrencyCode} {point : BalancePoint} {held : Int}
    (h : cashComparison events account period currency point = .level held) :
    held = cashMoved (events.filter (dated (upTo period point))) ⟨account, currency⟩ := by
  unfold cashComparison at h
  dsimp only at h
  split at h
  · split at h <;> cases h
  · cases h
    rfl

theorem quantity_of_position {instrument : InstrumentId} {point : BalancePoint} {held : ℚ}
    (h : positionComparison events account period instrument point = some held) :
    held = quantityMoved (events.filter (dated (upTo period point))) ⟨account, instrument⟩ := by
  unfold positionComparison at h
  dsimp only at h
  split at h <;> cases h
  rfl

/-- What a claim is compared with, once something was seen, is never called a lack of coverage. -/
theorem checkClaim_covered {claim : ControlClaim} (h : Observes events account period t) (hseen : t.eventsSeen ≠ 0) :
    checkClaim claim t ≠ .notComparable .noJournalCoverage := by
  unfold checkClaim
  rw [if_neg hseen]
  cases claim with
  | cashBalance currency amount point =>
    simp only [checkCash_eq h]
    cases cashComparison events account period currency point with
    | unstated => simp [CashComparison.outcome]
    | level held => exact ((decided_money _ _ _ _).named _ _).ne _
    | change stated moved => exact (decided_money _ _ _ _).ne _
  | positionQuantity instrument quantity point =>
    have heq := checkPosition_eq h instrument quantity point
    split at heq
    · simp [heq]
    · obtain ⟨seen, -, heq⟩ := heq
      simp only [heq]
      exact ((decided_quantity _ _).named _ _).ne _
  | cashTurnover currency debit credit =>
    dsimp only
    split
    · exact (decided_money _ _ _ _).ne _
    · exact (decided_money _ _ _ _).ne _
  | feesTotal currency amount | incomeTotal currency amount => exact (decided_money _ _ _ _).ne _
  | taxWithheldTotal currency amount =>
    dsimp only
    split
    · exact (decided_money _ _ _ _).ne _
    · simp

end

end Comparison
end Iaam
