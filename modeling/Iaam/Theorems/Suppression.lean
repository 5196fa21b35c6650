import Iaam.Theorems.Snapshot

/-! What leaving out the rows of the closed accounts changes in the asset snapshot. -/

namespace Iaam
namespace Assets
open Outcome

/-- The same report with every retirement taken back. -/
def unretired (report : BalancesReport) : BalancesReport := { report with population := report.population.unretired }

/-- The first snapshot shows some of the rows of the second, and every sum of the second. -/
structure SameFigures (s t : AssetSnapshot) : Prop where
  rows : s.accounts.Sublist t.accounts
  lists : ∀ k, (classAccounts s.cash k).Sublist (classAccounts t.cash k)
  cash : ∀ c, cashSum s.cash.totals c = cashSum t.cash.totals c
  classes : ∀ k c, classSum s.cash k c = classSum t.cash k c
  positions : ∀ c, calcSum s.positions.totals c = calcSum t.positions.totals c
  stated : ∀ c, moneySum s.positions.statedTotals c = moneySum t.positions.statedTotals c

/-- What the owner stated of a row in one currency, where the journal has no position of the account. -/
def statedShare (c : CurrencyCode) (row : AccountBalanceRow) : Int :=
  if row.positions = [] then
    (row.statedSecurities.map fun value => if value.amount.currency = c then value.amount.amount.raw else 0).getD 0
  else 0

/-- What was stated of the rows that are left out. -/
def suppressedStated (report : BalancesReport) (asOf : Date) (c : CurrencyCode) : Int :=
  ((report.accounts.filter (retiredAndEmpty report.population asOf)).map (statedShare c)).sum

section
variable {report : BalancesReport} {asOf : Date} {classes : Tree.Map AccountId String}

theorem rowStated_assetAccount (c : CurrencyCode) (row : AccountBalanceRow) :
    rowStated c (assetAccount classes row) = statedShare c row := by
  by_cases h : row.positions = []
  · have hactive : activeStated (assetAccount classes row) =
        row.statedSecurities.map fun value => ⟨row.account, value.amount, value.asOf⟩ := if_pos h
    rw [rowStated, hactive, statedShare, if_pos h, Option.map_map]
    rfl
  · have hactive : activeStated (assetAccount classes row) = none := if_neg h
    rw [rowStated, hactive, statedShare, if_neg h]
    rfl

theorem rowCash_of_empty {population : ReportPopulation} {row : AccountBalanceRow}
    (h : retiredAndEmpty population asOf row = true) (c : CurrencyCode) : rowCash c row.cash = 0 := by
  simp only [retiredAndEmpty, Bool.and_eq_true, List.all_eq_true, Money.isZero_iff] at h
  refine List.sum_eq_zero fun x hx => ?_
  obtain ⟨cash, hcash, rfl⟩ := List.mem_map.mp hx
  simp [cashShare, h.1.2 cash hcash]

theorem heldIn_of_empty {population : ReportPopulation} {row : AccountBalanceRow}
    (h : retiredAndEmpty population asOf row = true) (i : InstrumentId) : heldIn i row.positions = 0 := by
  simp only [retiredAndEmpty, Bool.and_eq_true, List.all_eq_true, Dec.isZero_iff] at h
  refine List.sum_eq_zero fun x hx => ?_
  obtain ⟨entry, hentry, rfl⟩ := List.mem_map.mp hx
  simp [h.2 entry hentry]

theorem retiredAndEmpty_unretired (row : AccountBalanceRow) :
    retiredAndEmpty (unretired report).population asOf row = false := by
  simp [retiredAndEmpty, unretired, ReportPopulation.unretired, PopulationAccount.retiredBy]

/-- A sum over the rows is the sum over those that are shown and those that are left out. -/
theorem sum_rows (asOf : Date) {M : Type} [AddCommMonoid M] (f : AccountBalanceRow → M) :
    (report.accounts.map f).sum =
      ((report.accounts.filter fun row => !retiredAndEmpty report.population asOf row).map f).sum +
        ((report.accounts.filter (retiredAndEmpty report.population asOf)).map f).sum := by
  have hsplit : Cut.Splits (fun _ => true) (fun row => !retiredAndEmpty report.population asOf row)
      (retiredAndEmpty report.population asOf) report.accounts := by
    intro row _
    cases h : retiredAndEmpty report.population asOf row <;> simp [h]
  simpa using Cut.sum_eq_add hsplit f

/-- A figure that is zero on the rows left out has the same sum over the rows shown and over all. -/
theorem sum_shown {M : Type} [AddCommMonoid M] {f : AccountBalanceRow → M}
    (h : ∀ row, retiredAndEmpty report.population asOf row = true → f row = 0) :
    ((report.accounts.filter fun row => !retiredAndEmpty report.population asOf row).map f).sum =
      (report.accounts.map f).sum := by
  have hzero : ((report.accounts.filter (retiredAndEmpty report.population asOf)).map f).sum = 0 := by
    refine List.sum_eq_zero fun x hx => ?_
    obtain ⟨row, hrow, rfl⟩ := List.mem_map.mp hx
    exact h row (List.mem_filter.mp hrow).2
  rw [sum_rows asOf, hzero, add_zero]

section
variable {prices : SnapshotPrices} {s t : AssetSnapshot}

/-- Without retirements every row is shown. -/
theorem accounts_unretired (ht : assetSnapshot asOf (unretired report) classes prices = .ok t) :
    t.accounts = report.accounts.map (assetAccount classes) := by
  rw [(assetSnapshot_ok ht).1]
  simp only [retiredAndEmpty_unretired, Bool.not_false, List.filter_true]
  rfl

theorem ofClass_map (k : CashClass) (rows : List AccountBalanceRow) :
    ofClass k (rows.map (assetAccount classes)) =
      (rows.filter fun row => (assetAccount classes row).cashClass = k).map (assetAccount classes) := by
  rw [ofClass, List.filter_map]
  rfl

/-- The rows of a class are worth what those of them that are shown are worth. -/
theorem classCash_shown (k : CashClass) (c : CurrencyCode) :
    rowsCash c (ofClass k ((report.accounts.filter fun row => !retiredAndEmpty report.population asOf row).map
      (assetAccount classes))) = rowsCash c (ofClass k (report.accounts.map (assetAccount classes))) := by
  rw [rowsCash_ofClass, rowsCash_ofClass, List.map_map, List.map_map]
  refine sum_shown fun row hrow => ?_
  rw [Function.comp_apply, show (assetAccount classes row).cash = row.cash from rfl, rowCash_of_empty hrow, ite_self]

end
end

/-- An open account with five roubles, and a closed one with a balance of zero and what was stated of it. -/
def closedAccount (stated : Option StatedSecuritiesValue) : BalancesReport where
  accounts := [⟨⟨1⟩, [⟨⟨.new 500, .rub⟩, .incorporated⟩], [], none⟩,
    ⟨⟨2⟩, [⟨⟨.new 0, .rub⟩, .unincorporated⟩], [], stated⟩]
  population := ⟨[⟨⟨1⟩, .covered, none⟩, ⟨⟨2⟩, .covered, some ⟨0⟩⟩]⟩

def noPrices : SnapshotPrices := ⟨.empty, [], ∅, ⟨⟨0⟩, 1, 1⟩⟩

end Assets
end Iaam
