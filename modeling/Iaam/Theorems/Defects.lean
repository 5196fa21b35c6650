import Iaam.DataQuality
import Iaam.Lib.Runs
import Iaam.Theorems.FlowSeries
import Mathlib.Algebra.BigOperators.Group.List.Basic

/-! Which known defects the returns report lists. The defects of an account are found while the accounts are weighed
by their values, and one value that cannot be computed leaves nothing to weigh. -/

namespace Iaam
namespace Returns
open Outcome Runs

/-! ### The values of the accounts -/

/-- No running total of an account leaves the range of the decimals. -/
def TotalsFit : (AccountId → ℚ) → List (AccountId × ℚ) → Prop
  | _, [] => True
  | totals, (account, amount) :: rest =>
    |totals account + amount| ≤ decimalMax ∧ TotalsFit (Function.update totals account (totals account + amount)) rest

section
variable {ι : Type} (get : AccountValue → Dec) (put : AccountValue → Dec → AccountValue) (account : ι → AccountId)
  (value : ι → Computed Dec)

/-- Adds the amount of one item to a part of the value of its account. -/
def collect (values : AccountValues) (x : ι) : Computed AccountValues := do
  let amount ← value x
  let slot := slotOf values (account x)
  let total ← add (get slot) amount
  return values.insert (account x) (put slot total)

/-- The amount of an item, zero when there is none. -/
def amountOf (x : ι) : ℚ := ((value x).toOption.map Dec.val).getD 0

variable {get put account value} {values values' : AccountValues} {x : ι} {l : List ι}

theorem add_ok {a b d : Dec} : add a b = .ok d ↔ d.val = a.val + b.val := by
  rw [add, mapError_ok, Dec.checkedAdd_ok]

theorem collect_ok : collect get put account value values x = .ok values' ↔
    ∃ amount total, value x = .ok amount ∧ total.val = (get (slotOf values (account x))).val + amount.val ∧
      values' = values.insert (account x) (put (slotOf values (account x)) total) := by
  simp only [collect, bind_ok, add_ok]
  constructor
  · rintro ⟨amount, hamount, total, htotal, h⟩
    exact ⟨amount, total, hamount, htotal, (Except.ok.inj h).symm⟩
  · rintro ⟨amount, total, hamount, htotal, rfl⟩
    exact ⟨amount, hamount, total, htotal, rfl⟩

theorem slotOf_insert {a b : AccountId} {v : AccountValue} :
    slotOf (values.insert a v) b = if b = a then v else slotOf values b := by
  unfold slotOf
  split
  · next h => rw [h, Tree.get_insert_self, Option.getD_some]
  · next h => rw [Tree.get_insert_of_ne (Ne.symm h)]

variable (get put account value) in
/-- All the items are added exactly when each has an amount and no running total leaves the range. -/
theorem exists_collected_iff (hput : ∀ v d, get (put v d) = d) :
    (∃ out, l.foldlM (collect get put account value) values = .ok out) ↔
      (∀ x ∈ l, ∃ d, value x = .ok d) ∧
        TotalsFit (fun a => (get (slotOf values a)).val) (l.map fun x => (account x, amountOf value x)) := by
  induction l generalizing values with
  | nil => exact iff_of_true ⟨values, rfl⟩ ⟨fun x hx => absurd hx List.not_mem_nil, trivial⟩
  | cons x l ih =>
    rw [List.map_cons, TotalsFit, List.forall_mem_cons]
    simp only [List.foldlM_cons, bind_ok, collect_ok]
    -- the totals after the first item
    have htotals : ∀ {amount total : Dec}, value x = .ok amount →
        total.val = (get (slotOf values (account x))).val + amount.val →
        (fun a => (get (slotOf (values.insert (account x) (put (slotOf values (account x)) total)) a)).val) =
          Function.update (fun a => (get (slotOf values a)).val) (account x)
            ((get (slotOf values (account x))).val + amountOf value x) := by
      intro amount total hamount htotal
      funext a
      rw [slotOf_insert, Function.update_apply]
      split
      · rw [hput, htotal, amountOf, hamount]
        rfl
      · rfl
    constructor
    · rintro ⟨out, next, ⟨amount, total, hamount, htotal, rfl⟩, hout⟩
      obtain ⟨hall, hfit⟩ := ih.mp ⟨out, hout⟩
      rw [htotals hamount htotal] at hfit
      have hamt : amountOf value x = amount.val := by rw [amountOf, hamount]; rfl
      refine ⟨⟨⟨amount, hamount⟩, hall⟩, ?_, hfit⟩
      rw [hamt, ← htotal]
      exact total.inRange
    · rintro ⟨⟨⟨amount, hamount⟩, hall⟩, hrange, hfit⟩
      have hamt : amountOf value x = amount.val := by rw [amountOf, hamount]; rfl
      let total : Dec := ⟨_, hrange⟩
      have htotal : total.val = (get (slotOf values (account x))).val + amount.val := by rw [← hamt]
      rw [← htotals hamount htotal] at hfit
      obtain ⟨out, hout⟩ := ih.mpr ⟨hall, hfit⟩
      exact ⟨out, _, ⟨amount, total, hamount, htotal, rfl⟩, hout⟩

variable {out : AccountValues} (h : l.foldlM (collect get put account value) values = .ok out)

include h

/-- A part of an account grows by the amounts of its items. -/
theorem get_collected (hput : ∀ v d, get (put v d) = d) (a : AccountId) :
    (get (slotOf out a)).val =
      (get (slotOf values a)).val + (l.map fun x => if account x = a then amountOf value x else 0).sum := by
  refine (foldlM_ok.mp h).adds (fun values => (get (slotOf values a)).val) _ ?_
  intro before x after _ hstep
  obtain ⟨amount, total, hamount, htotal, rfl⟩ := collect_ok.mp hstep
  rw [slotOf_insert]
  by_cases ha : account x = a
  · rw [if_pos ha.symm, if_pos ha, hput, htotal, ha, amountOf, hamount]
    rfl
  · rw [if_neg (Ne.symm ha), if_neg ha, add_zero]

/-- The other part stays. -/
theorem other_collected (other : AccountValue → Dec) (hother : ∀ v d, other (put v d) = other v) (a : AccountId) :
    other (slotOf out a) = other (slotOf values a) := by
  refine (foldlM_ok.mp h).keeps (P := fun now => other (slotOf now a) = other (slotOf values a)) ?_ rfl
  intro before x after hbefore hstep
  obtain ⟨amount, total, -, -, rfl⟩ := collect_ok.mp hstep
  rw [slotOf_insert, ← hbefore]
  split
  · next ha => rw [hother, ha]
  · rfl

theorem mem_collected {a : AccountId} : a ∈ out ↔ a ∈ values ∨ ∃ x ∈ l, account x = a := by
  refine Run.marks (P := fun now => a ∈ now) ?_ (foldlM_ok.mp h)
  intro before x after hstep
  obtain ⟨amount, total, -, -, rfl⟩ := collect_ok.mp hstep
  rw [Std.ExtTreeMap.mem_insert, compare_eq_iff_eq, or_comm]

end

section
variable {s : LedgerState} {r : ReturnsRequest}

def cashItem (r : ReturnsRequest) (entry : AccountId × Money) : Computed Dec := converted r r.asOf entry.2

/-- Every value of the contour can be computed: a rate for each balance of cash, a value for each position, and no
    running total out of range. -/
structure Weighable (s : LedgerState) (r : ReturnsRequest) : Prop where
  cash : ∀ entry ∈ contourCash s r, ∃ d, cashItem r entry = .ok d
  positions : ∀ position ∈ positionValues s r, ∃ d, position.value = .ok d
  cashTotals : TotalsFit (fun _ => 0) ((contourCash s r).map fun entry => (entry.1, amountOf (cashItem r) entry))
  positionTotals : TotalsFit (fun _ => 0)
    ((positionValues s r).map fun position => (position.assessment.account, amountOf PositionValue.value position))

theorem addCash_eq : addCash r =
    collect AccountValue.cash (fun v d => { v with cash := d }) Prod.fst (cashItem r) := rfl

theorem addPosition_eq : addPosition =
    collect AccountValue.positions (fun v d => { v with positions := d }) (fun p => p.assessment.account)
      PositionValue.value := rfl

theorem slotOf_empty (a : AccountId) : slotOf ∅ a = ⟨.zero, .zero⟩ := by
  unfold slotOf
  rw [Std.ExtTreeMap.getElem?_empty]
  rfl

theorem exists_cash_iff : (∃ cash, (contourCash s r).foldlM (addCash r) ∅ = .ok cash) ↔
    (∀ entry ∈ contourCash s r, ∃ d, cashItem r entry = .ok d) ∧
      TotalsFit (fun _ => 0) ((contourCash s r).map fun entry => (entry.1, amountOf (cashItem r) entry)) := by
  have hzero : (fun a => (slotOf ∅ a).cash.val) = fun _ => 0 := by
    funext a
    rw [slotOf_empty]
    rfl
  rw [addCash_eq, exists_collected_iff _ _ _ _ fun _ _ => rfl, hzero]

theorem exists_positions_iff {cash : AccountValues} (hcash : (contourCash s r).foldlM (addCash r) ∅ = .ok cash) :
    (∃ values, (positionValues s r).foldlM addPosition cash = .ok values) ↔
      (∀ position ∈ positionValues s r, ∃ d, position.value = .ok d) ∧
        TotalsFit (fun _ => 0)
          ((positionValues s r).map fun p => (p.assessment.account, amountOf PositionValue.value p)) := by
  rw [addCash_eq] at hcash
  have hkept : (fun a => (slotOf cash a).positions.val) = fun _ => 0 := by
    funext a
    rw [other_collected hcash AccountValue.positions fun _ _ => rfl, slotOf_empty]
    rfl
  rw [addPosition_eq, exists_collected_iff _ _ _ _ fun _ _ => rfl, hkept]

theorem accountValues_ok_iff (hnew : guardStateNotNewer s r.asOf = .ok ()) :
    (∃ values, accountValues s r = .ok values) ↔ Weighable s r := by
  simp only [accountValues, hnew, ok_bind, bind_ok]
  constructor
  · rintro ⟨values, cash, hcash, hpositions⟩
    obtain ⟨hrates, hcashFit⟩ := exists_cash_iff.mp ⟨cash, hcash⟩
    obtain ⟨hvalues, hfit⟩ := (exists_positions_iff hcash).mp ⟨values, hpositions⟩
    exact ⟨hrates, hvalues, hcashFit, hfit⟩
  · rintro ⟨hrates, hvalues, hcashFit, hfit⟩
    obtain ⟨cash, hcash⟩ := exists_cash_iff.mpr ⟨hrates, hcashFit⟩
    obtain ⟨values, hpositions⟩ := (exists_positions_iff hcash).mpr ⟨hvalues, hfit⟩
    exact ⟨values, cash, hcash, hpositions⟩

/-- The cash of an account is worth what its balances are worth together. -/
theorem cash_of_accountValues {values : AccountValues} (hvalues : accountValues s r = .ok values) (a : AccountId) :
    (slotOf values a).cash.val =
      ((contourCash s r).map fun entry => if entry.1 = a then amountOf (cashItem r) entry else 0).sum := by
  obtain ⟨-, hvalues⟩ := seq_ok.mp hvalues
  obtain ⟨cash, hcash, hpositions⟩ := bind_ok.mp hvalues
  rw [addPosition_eq] at hpositions
  rw [addCash_eq] at hcash
  rw [other_collected hpositions AccountValue.cash fun _ _ => rfl, get_collected hcash fun _ _ => rfl,
    slotOf_empty]
  exact zero_add _

theorem mem_accountValues {values : AccountValues} (hvalues : accountValues s r = .ok values)
    {entry : AccountId × Money} (hentry : entry ∈ contourCash s r) : entry.1 ∈ values := by
  obtain ⟨-, hvalues⟩ := seq_ok.mp hvalues
  obtain ⟨cash, hcash, hpositions⟩ := bind_ok.mp hvalues
  rw [addPosition_eq] at hpositions
  rw [addCash_eq] at hcash
  exact (mem_collected hpositions).mpr (.inl ((mem_collected hcash).mpr (.inr ⟨entry, hentry, rfl⟩)))

end

/-! ### An account with money in one currency -/

/-- The account has money in this currency, and in no other. -/
structure SingleCash (s : LedgerState) (account : AccountId) (money : Money) : Prop where
  held : (account, money) ∈ s.balances.iterCash
  nonzero : money.amount.raw ≠ 0
  only : ∀ entry ∈ s.balances.iterCash, entry.1 = account → entry.2.currency ≠ money.currency → entry.2.amount.raw = 0

section
variable {s : LedgerState} {r : ReturnsRequest} {account : AccountId} {money : Money}

theorem nodup_iterCash (s : LedgerState) :
    (s.balances.iterCash.map fun entry => (entry.1, entry.2.currency)).Nodup := by
  have hkeys : s.balances.cash.toList.Pairwise fun l r => l.1 < r.1 :=
    Std.ExtTreeMap.ordered_keys_toList.imp fun hlt => compare_lt_iff_lt.mp hlt
  rw [Balances.iterCash, List.map_map, List.Nodup, List.pairwise_map]
  refine hkeys.imp fun {l r} hlt heq => ?_
  obtain ⟨haccount, hcurrency⟩ := Prod.mk.inj heq
  have hsame : l.1 = r.1 := by
    cases hl : l.1
    cases hr : r.1
    simp_all
  exact absurd hlt (by rw [hsame]; exact lt_irrefl _)

theorem amountOf_cashItem (entry : AccountId × Money) {d : Dec} (h : cashItem r entry = .ok d) :
    ∃ rate, r.fx.rate entry.2.currency r.reportCurrency r.asOf = some rate ∧
      amountOf (cashItem r) entry = entry.2.toCalcDec.val * rate.val := by
  have hd := h
  rw [cashItem, converted, mapError_ok, convertMoney] at hd
  cases hrate : r.fx.rate entry.2.currency r.reportCurrency r.asOf with
  | none =>
    rw [hrate] at hd
    cases hd
  | some rate =>
    rw [hrate, mapError_ok, Dec.checkedMul_ok] at hd
    refine ⟨rate, rfl, ?_⟩
    rw [amountOf, h]
    exact hd

theorem toCalcDec_eq_zero : money.toCalcDec.val = 0 ↔ money.amount.raw = 0 := by
  have hscale : (10 : ℚ) ^ money.currency.minorUnits ≠ 0 := by positivity
  simp [Money.toCalcDec, hscale]

/-- All its cash is worth what the one balance is worth. -/
theorem cash_of_single {values : AccountValues} (hvalues : accountValues s r = .ok values)
    (hin : r.contour.contains account = true) (h : SingleCash s account money) :
    (slotOf values account).cash.val = amountOf (cashItem r) (account, money) := by
  have hmem : (account, money) ∈ contourCash s r := List.mem_filter.mpr ⟨h.held, hin⟩
  have hnodup : (contourCash s r).Nodup := (nodup_iterCash s).of_map.filter _
  have hweigh : ∀ entry ∈ contourCash s r, ∃ d, cashItem r entry = .ok d :=
    ((accountValues_ok_iff (seq_ok.mp hvalues).1).mp ⟨values, hvalues⟩).cash
  rw [cash_of_accountValues hvalues account, ← List.sum_toFinset _ hnodup]
  rw [Finset.sum_eq_single_of_mem (account, money) (List.mem_toFinset.mpr hmem), if_pos rfl]
  intro entry hentry hne
  split
  · next hsame =>
    -- another balance of the account is in another currency, and empty
    have hentry := List.mem_toFinset.mp hentry
    have hcash := (List.mem_filter.mp hentry).1
    obtain ⟨d, hd⟩ := hweigh entry hentry
    obtain ⟨rate, -, hamount⟩ := amountOf_cashItem entry hd
    have hcurrency : entry.2.currency ≠ money.currency := by
      intro hcurrency
      exact hne (List.inj_on_of_nodup_map (nodup_iterCash s) hcash h.held (Prod.ext hsame hcurrency))
    rw [hamount, toCalcDec_eq_zero.mpr (h.only entry hcash hsame hcurrency), zero_mul]
  · rfl

end

/-! ### The issues -/

section
variable {Rate Metrics : Type} {rules : ReportRules Rate Metrics} {s : LedgerState} {r : ReportRequest}
  {account : AccountId} {money : Money}

theorem mem_weighedValues {value : AccountValue} : (account, value) ∈ weighedValues s r ↔
    ∃ values, accountValues s r.toReturnsRequest = .ok values ∧ values[account]? = some value := by
  rw [weighedValues, Std.ExtTreeMap.mem_toList_iff_getElem?_eq_some]
  cases accountValues s r.toReturnsRequest with
  | error e => simp [Except.toOption]
  | ok values => simp [Except.toOption]

/-- An issue of another source than the weighing. -/
def Foreign : MaterialIssue → Prop
  | .discrepancy .. | .unsupportedFinancing _ => False
  | _ => True

/-- Discrepancies and outside financing come from the weighing only. -/
theorem mem_materialIssues {issue : MaterialIssue} (h : ¬Foreign issue) :
    issue ∈ (reportedQuality rules s r).materialIssues ↔
      ∃ a value, (a, value) ∈ weighedValues s r ∧ issue ∈ accountIssues r a value := by
  have hbond : ∀ issues : List BondIssue, issue ∉ issues.map MaterialIssue.bond := by
    intro issues hmem
    obtain ⟨b, -, rfl⟩ := List.mem_map.mp hmem
    exact h trivial
  have hstate : issue ∉ stateIssues s := by
    intro hmem
    simp only [stateIssues, List.mem_append, List.mem_map] at hmem
    rcases hmem with ((⟨a, -, rfl⟩ | ⟨e, -, rfl⟩) | ⟨e, -, rfl⟩) | ⟨d, -, rfl⟩ <;> exact h trivial
  simp only [reportedQuality, dataQuality, List.mem_append, hbond, hstate, false_or, or_false, List.mem_flatMap]
  constructor
  · rintro ⟨⟨a, value⟩, hmem, hissue⟩
    exact ⟨a, value, hmem, hissue⟩
  · rintro ⟨a, value, hmem, hissue⟩
    exact ⟨(a, value), hmem, hissue⟩

theorem unsupportedFinancing_mem_iff :
    .unsupportedFinancing account ∈ (reportedQuality rules s r).materialIssues ↔
      account ∈ r.financing ∧ ∃ value, (account, value) ∈ weighedValues s r := by
  have hstatus : ∀ a dimension status, statusIssue a dimension status ≠ some (.unsupportedFinancing account) := by
    intro a dimension status
    cases status <;> simp [statusIssue]
  rw [mem_materialIssues id]
  constructor
  · rintro ⟨a, value, hmem, hissue⟩
    rcases List.mem_append.mp hissue with hissue | hissue
    · split at hissue
      · next hfinanced =>
        cases List.mem_singleton.mp hissue
        exact ⟨hfinanced, value, hmem⟩
      · cases hissue
    · obtain ⟨part, -, hpart⟩ := List.mem_filterMap.mp hissue
      exact absurd hpart (hstatus _ _ _)
  · rintro ⟨hfinanced, value, hmem⟩
    exact ⟨account, value, hmem, List.mem_append_left _ (by rw [if_pos hfinanced]; exact List.mem_singleton_self _)⟩

theorem discrepancy_mem_iff :
    .discrepancy account .cash ∈ (reportedQuality rules s r).materialIssues ↔
      r.ledger.statusFor account r.asOf .cash = .discrepant ∧
        ∃ value, (account, value) ∈ weighedValues s r ∧ value.cash.val ≠ 0 := by
  rw [mem_materialIssues id]
  constructor
  · rintro ⟨a, value, hmem, hissue⟩
    rcases List.mem_append.mp hissue with hissue | hissue
    · split at hissue
      · cases List.mem_singleton.mp hissue
      · cases hissue
    · obtain ⟨⟨amount, dimension, status⟩, hpart, hissue⟩ := List.mem_filterMap.mp hissue
      obtain ⟨part, hpart, heq⟩ := List.mem_map.mp hpart
      obtain ⟨hparts, hnonzero⟩ := List.mem_filter.mp hpart
      cases heq
      dsimp only at hissue
      have hnonzero : part.1.val ≠ 0 := Dec.not_isZero.mp hnonzero
      -- of the statuses only a discrepancy makes this issue, and it names the account and the dimension
      cases hstatus : r.ledger.statusFor a r.asOf part.2 with
      | discrepant =>
        rw [hstatus] at hissue
        obtain ⟨rfl, hdimension⟩ : a = account ∧ part.2 = .cash := by simpa [statusIssue] using hissue
        rw [hdimension] at hstatus
        refine ⟨hstatus, value, hmem, ?_⟩
        rcases List.mem_pair.mp hparts with rfl | rfl
        · exact hnonzero
        · cases hdimension
      | provisional => simp [hstatus, statusIssue] at hissue
      | acceptedInternal => simp [hstatus, statusIssue] at hissue
      | acceptedIndependent => simp [hstatus, statusIssue] at hissue
  · rintro ⟨hstatus, value, hmem, hnonzero⟩
    refine ⟨account, value, hmem, List.mem_append_right _ (List.mem_filterMap.mpr
      ⟨(value.cash, .cash, .discrepant), List.mem_map.mpr ⟨(value.cash, .cash), ?_, by rw [hstatus]⟩, rfl⟩)⟩
    exact List.mem_filter.mpr ⟨List.mem_cons_self, Dec.not_isZero.mpr hnonzero⟩

theorem incomplete_of_defect {issue : MaterialIssue} (hmem : issue ∈ (reportedQuality rules s r).materialIssues)
    (hdefect : issue.isDefect = true) : (reportedQuality rules s r).status = .incomplete :=
  if_pos (List.any_eq_true.mpr ⟨issue, hmem, hdefect⟩)

variable (rules s r account) in
/-- The known defects of an account are in the report. -/
structure ReportsDefects : Prop where
  discrepancy : r.ledger.statusFor account r.asOf .cash = .discrepant →
    .discrepancy account .cash ∈ (reportedQuality rules s r).materialIssues ∧
      (reportedQuality rules s r).status = .incomplete
  financing : account ∈ r.financing → .unsupportedFinancing account ∈ (reportedQuality rules s r).materialIssues

/-- An account with money in one currency is weighed when all of the contour can be. -/
theorem weighed_iff (hnew : guardStateNotNewer s r.asOf = .ok ()) (hin : r.contour.contains account = true)
    (hcash : SingleCash s account money) :
    (∃ value, (account, value) ∈ weighedValues s r) ↔ Weighable s r.toReturnsRequest := by
  rw [← accountValues_ok_iff hnew]
  simp only [mem_weighedValues]
  constructor
  · rintro ⟨value, values, hvalues, -⟩
    exact ⟨values, hvalues⟩
  · rintro ⟨values, hvalues⟩
    have hthere : account ∈ values := mem_accountValues hvalues (List.mem_filter.mpr ⟨hcash.held, hin⟩)
    obtain ⟨value, hvalue⟩ := Option.isSome_iff_exists.mp (Std.ExtTreeMap.mem_iff_isSome_getElem?.mp hthere)
    exact ⟨value, values, hvalues, hvalue⟩

/-- What its cash is worth is nothing only at a rate of zero. -/
theorem cash_ne_zero_iff (hin : r.contour.contains account = true) (hcash : SingleCash s account money)
    {value : AccountValue} (hmem : (account, value) ∈ weighedValues s r) :
    value.cash.val ≠ 0 ↔
      ∀ rate, r.fx.rate money.currency r.reportCurrency r.asOf = some rate → rate.val ≠ 0 := by
  obtain ⟨values, hvalues, hget⟩ := mem_weighedValues.mp hmem
  have hslot : slotOf values account = value := by rw [slotOf, hget]; rfl
  have hitem := ((accountValues_ok_iff (seq_ok.mp hvalues).1).mp ⟨values, hvalues⟩).cash (account, money)
    (List.mem_filter.mpr ⟨hcash.held, hin⟩)
  obtain ⟨d, hd⟩ := hitem
  obtain ⟨rate, hrate, hamount⟩ := amountOf_cashItem (account, money) hd
  rw [← hslot, cash_of_single hvalues hin hcash, hamount]
  constructor
  · intro hne rate' hrate'
    rw [hrate, Option.some.injEq] at hrate'
    subst hrate'
    exact right_ne_zero_of_mul hne
  · intro hall
    exact mul_ne_zero (mt toCalcDec_eq_zero.mp hcash.nonzero) (hall rate hrate)

end

/-! ### Roubles that do not reconcile beside dollars -/

/-- The accounts of the report: roubles on the first, dollars on the second. -/
def twoAccounts : ProjectionContext :=
  ⟨⟨⟨1⟩, 1, ((∅ : Tree.Set AccountId).insert ⟨1⟩).insert ⟨2⟩⟩, .withDefaults, 1⟩

def twoDeposits : List Event :=
  [eventWith ⟨1⟩ ⟨1⟩ ⟨0⟩ 0 (.cashIn ⟨.new 500, .rub⟩) [.cash ⟨1⟩ ⟨.new 500, .rub⟩],
    eventWith ⟨2⟩ ⟨2⟩ ⟨0⟩ 1 (.cashIn ⟨.new 700, .usd⟩) [.cash ⟨2⟩ ⟨.new 700, .usd⟩]]

/-- The cash of the first account does not reconcile, and it carries outside financing. -/
def defectRequest (fx : FxTable) : ReportRequest where
  contour := twoAccounts.contour
  asOf := ⟨1⟩
  reportCurrency := .rub
  fx := fx
  coordinate := ⟨⟨0⟩, 1, 1⟩
  marketPrices := []
  bondSchedules := ∅
  ledger := ⟨[⟨⟨1⟩, ⟨⟨0⟩, ⟨1⟩⟩, (∅ : Dimensions).insert .cash .discrepant, [], [], []⟩], []⟩
  financing := (∅ : Tree.Set AccountId).insert ⟨1⟩

/-- There are no bonds to apply the rules to. -/
def noBonds : ReportRules Unit Unit :=
  ⟨fun _ _ => [], fun _ => [], fun _ _ _ _ _ => [], id, fun _ _ _ => (), fun _ _ _ => none⟩

theorem exists_twoDeposits : ∃ s, ProjectedFor twoAccounts.contour s ∧ guardStateNotNewer s ⟨1⟩ = .ok () ∧
    SingleCash s ⟨1⟩ ⟨.new 500, .rub⟩ ∧ (reportedQuality noBonds s (defectRequest (.new .cbrOfficial))).status = .mixed ∧
    (reportedQuality noBonds s (defectRequest (.new .cbrOfficial))).materialIssues = [.historyStartsAt ⟨0⟩] ∧
    ∃ values, accountValues s
      (defectRequest ((FxTable.new .cbrOfficial).withRate .usd .rub ⟨1⟩ (.ofInt64 90))).toReturnsRequest = .ok values := by
  obtain ⟨p, hp⟩ := exists_ok (x := project .transparent twoAccounts twoDeposits) (by decide)
  have hcash : p.snapshot.state.balances.iterCash = [(⟨1⟩, ⟨.new 500, .rub⟩), (⟨2⟩, ⟨.new 700, .usd⟩)] :=
    read_of_ok hp (fun p => p.snapshot.state.balances.iterCash) (by decide)
  refine ⟨p.snapshot.state, ⟨.transparent, twoAccounts, twoDeposits, p, rfl, hp, rfl⟩, ?_, ⟨?_, by decide, ?_⟩, ?_, ?_, ?_⟩
  · exact read_of_ok hp (fun p => guardStateNotNewer p.snapshot.state ⟨1⟩) (by decide)
  · rw [hcash]
    exact List.mem_cons_self
  · intro entry hentry haccount hcurrency
    rw [hcash] at hentry
    rcases List.mem_pair.mp hentry with rfl | rfl
    · exact absurd rfl hcurrency
    · cases haccount
  · exact read_of_ok hp (fun p => (reportedQuality noBonds p.snapshot.state (defectRequest (.new .cbrOfficial))).status)
      (by decide +kernel)
  · exact read_of_ok hp
      (fun p => (reportedQuality noBonds p.snapshot.state (defectRequest (.new .cbrOfficial))).materialIssues)
      (by decide +kernel)
  · refine exists_ok (read_of_ok hp (fun p => (accountValues p.snapshot.state
      (defectRequest ((FxTable.new .cbrOfficial).withRate .usd .rub ⟨1⟩ (.ofInt64 90))).toReturnsRequest).isOk) ?_)
    decide +kernel

end Returns
end Iaam
