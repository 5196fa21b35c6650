import Iaam.Lib.Runs
import Iaam.Lib.Totals
import Iaam.Report.Assets

/-! What the folds of the asset snapshot add up: cash by class and currency, quantities by instrument, the
values of the holdings and the stated values by currency. -/

namespace Iaam
namespace Assets
open Outcome

/-! ### The parts of the cash -/

/-- The minor units of a figure, balance and movement together. -/
def rawOf (figure : CashFigure) : Int := Money.rawOr figure.balance? + Money.rawOr figure.movement?

/-- What a list of figures says of one currency. A currency that has no figure has nothing. -/
def cashSum (figures : List CashFigure) (currency : CurrencyCode) : Int :=
  (figures.map fun figure => if figure.currency = currency then rawOf figure else 0).sum

def CashParts.raw (parts : CashParts) : Int := Money.rawOr parts.balance + Money.rawOr parts.movement

/-- The amount, where there is one, is in this currency. -/
def InCurrency (slot : Option Money) (currency : CurrencyCode) : Prop := ∀ m, slot = some m → m.currency = currency

/-- The parts under each currency are in it. -/
def Keyed (totals : CashTotals) : Prop :=
  ∀ (c : CurrencyCode) parts, totals[c]? = some parts → InCurrency parts.balance c ∧ InCurrency parts.movement c

def amountIn (totals : CashTotals) (c : CurrencyCode) : Int := (totals[c]?.map CashParts.raw).getD 0

theorem keyed_empty : Keyed ∅ := by
  intro c parts h
  simp at h

@[simp] theorem amountIn_empty (c : CurrencyCode) : amountIn ∅ c = 0 := by simp [amountIn]

theorem amountIn_eq (totals : CashTotals) (c : CurrencyCode) : amountIn totals c = (totals[c]?.getD .empty).raw := by
  unfold amountIn
  cases totals[c]? <;> rfl

theorem accumulatePart_ok {slot part slot' : Option Money} (h : CashParts.accumulatePart slot part = .ok slot')
    {c : CurrencyCode} (hslot : InCurrency slot c) (hpart : InCurrency part c) :
    Money.rawOr slot' = Money.rawOr slot + Money.rawOr part ∧ InCurrency slot' c := by
  cases part with
  | none =>
    cases h
    exact ⟨by simp, hslot⟩
  | some money =>
    obtain ⟨sum, hsum, h⟩ := bind_ok.mp h
    cases h
    obtain ⟨hraw, hcur, -⟩ := accumulate_ok (mapError_ok.mp hsum)
    refine ⟨hraw, ?_⟩
    rintro m ⟨⟩
    exact hcur.trans (hpart money rfl)

theorem addParts_ok {parts parts' : CashParts} {figure : CashFigure} (h : parts.add figure = .ok parts')
    {c : CurrencyCode} (hbalance : InCurrency parts.balance c) (hmovement : InCurrency parts.movement c)
    (hb : InCurrency figure.balance? c) (hm : InCurrency figure.movement? c) :
    parts'.raw = parts.raw + rawOf figure ∧ InCurrency parts'.balance c ∧ InCurrency parts'.movement c := by
  obtain ⟨balance, hx, h⟩ := bind_ok.mp h
  obtain ⟨movement, hy, h⟩ := bind_ok.mp h
  cases h
  obtain ⟨hxraw, hxcur⟩ := accumulatePart_ok hx hbalance hb
  obtain ⟨hyraw, hycur⟩ := accumulatePart_ok hy hmovement hm
  refine ⟨?_, hxcur, hycur⟩
  simp only [CashParts.raw, rawOf, hxraw, hyraw]
  abel

theorem forAccount_currency (cash : AccountCash) : (CashFigure.forAccount cash).currency = cash.money.currency := by
  unfold CashFigure.forAccount
  split <;> rfl

theorem rawOf_forAccount (cash : AccountCash) : rawOf (.forAccount cash) = cash.money.amount.raw := by
  unfold CashFigure.forAccount
  split <;> simp [rawOf, CashFigure.balance?, CashFigure.movement?]

theorem inCurrency_forAccount (cash : AccountCash) :
    InCurrency (CashFigure.forAccount cash).balance? cash.money.currency ∧
      InCurrency (CashFigure.forAccount cash).movement? cash.money.currency := by
  unfold CashFigure.forAccount
  split
  · exact ⟨by rintro m ⟨⟩; rfl, by rintro m ⟨⟩⟩
  · exact ⟨by rintro m ⟨⟩, by rintro m ⟨⟩; rfl⟩

/-- What one cash figure of a row adds to the currency. -/
def cashShare (c : CurrencyCode) (cash : AccountCash) : Int := if cash.money.currency = c then cash.money.amount.raw else 0

theorem addFigure_ok {totals totals' : CashTotals} {cash : AccountCash}
    (h : addFigure totals (.forAccount cash) = .ok totals') (hk : Keyed totals) :
    Keyed totals' ∧ ∀ c, amountIn totals' c = amountIn totals c + cashShare c cash := by
  obtain ⟨parts, hparts, h⟩ := bind_ok.mp h
  cases h
  rw [forAccount_currency] at hparts ⊢
  have hslot : InCurrency (totals[cash.money.currency]?.getD .empty).balance cash.money.currency ∧
      InCurrency (totals[cash.money.currency]?.getD .empty).movement cash.money.currency := by
    cases hget : totals[cash.money.currency]? with
    | none => exact ⟨by rintro m ⟨⟩, by rintro m ⟨⟩⟩
    | some old => exact hk _ old hget
  obtain ⟨hb, hm⟩ := inCurrency_forAccount cash
  obtain ⟨hraw, hcur⟩ := addParts_ok hparts hslot.1 hslot.2 hb hm
  constructor
  · intro c old hget
    rw [Tree.get_insert] at hget
    split at hget
    · next e =>
      cases hget
      cases e
      exact hcur
    · exact hk c old hget
  · intro c
    by_cases e : cash.money.currency = c
    · subst e
      rw [amountIn_eq totals, cashShare, if_pos rfl, amountIn, Tree.get_insert_self, ← rawOf_forAccount cash, ← hraw]
      rfl
    · rw [amountIn, Tree.get_insert_of_ne e, cashShare, if_neg e, add_zero, amountIn]

/-- The figure a currency is finished with says what its parts hold. -/
theorem finish_raw {parts : CashParts} {k : CurrencyCode} (hb : InCurrency parts.balance k)
    (hm : InCurrency parts.movement k) (c : CurrencyCode) :
    (parts.finish.map fun figure => if figure.currency = c then rawOf figure else 0).getD 0 =
      if k = c then parts.raw else 0 := by
  rcases parts with ⟨balance, movement⟩
  cases balance with
  | none =>
    cases movement with
    | none => simp [CashParts.finish, CashParts.raw]
    | some m => simp [CashParts.finish, CashParts.raw, CashFigure.currency, rawOf, CashFigure.balance?,
        CashFigure.movement?, hm m rfl]
  | some b =>
    cases movement <;> simp [CashParts.finish, CashParts.raw, CashFigure.currency, rawOf, CashFigure.balance?,
      CashFigure.movement?, hb b rfl]

theorem cashSum_finishTotals {totals : CashTotals} (hk : Keyed totals) (c : CurrencyCode) :
    cashSum (finishTotals totals) c = amountIn totals c := by
  unfold cashSum finishTotals amountIn
  rw [← Cut.sum_filterMap, ← Tree.total_at, Tree.total]
  congr 1
  refine List.map_congr_left fun entry hmem => ?_
  obtain ⟨hb, hm⟩ := hk entry.1 entry.2 (Std.ExtTreeMap.mem_toList_iff_getElem?_eq_some.mp hmem)
  exact finish_raw hb hm c

/-! ### The fold of the cash -/

/-- What a row adds to a currency. -/
def rowCash (c : CurrencyCode) (cash : List AccountCash) : Int := (cash.map (cashShare c)).sum

theorem foldFigures_ok {cash : List AccountCash} {totals totals' : CashTotals × CashTotals}
    (h : cash.foldlM foldFigure totals = .ok totals') (hgroup : Keyed totals.1) (hwhole : Keyed totals.2) :
    (Keyed totals'.1 ∧ Keyed totals'.2) ∧
      (∀ c, amountIn totals'.1 c = amountIn totals.1 c + rowCash c cash) ∧
      ∀ c, amountIn totals'.2 c = amountIn totals.2 c + rowCash c cash := by
  induction cash generalizing totals with
  | nil =>
    cases h
    exact ⟨⟨hgroup, hwhole⟩, by simp [rowCash], by simp [rowCash]⟩
  | cons x cash ih =>
    obtain ⟨next, hx, h⟩ := bind_ok.mp h
    obtain ⟨group, hg, hx⟩ := bind_ok.mp hx
    obtain ⟨whole, hw, hx⟩ := bind_ok.mp hx
    cases hx
    obtain ⟨hkg, hag⟩ := addFigure_ok hg hgroup
    obtain ⟨hkw, haw⟩ := addFigure_ok hw hwhole
    obtain ⟨hkeyed, hgroups, hwholes⟩ := ih h hkg hkw
    refine ⟨hkeyed, fun c => ?_, fun c => ?_⟩
    · rw [hgroups c, hag c, rowCash, rowCash, List.map_cons, List.sum_cons, add_assoc]
    · rw [hwholes c, haw c, rowCash, rowCash, List.map_cons, List.sum_cons, add_assoc]

/-- Every total of the fold is under its own currency. -/
def CashFold.Keyed (acc : CashFold) : Prop := Assets.Keyed acc.whole ∧ ∀ k, Assets.Keyed (acc.group k).totals

theorem group_insert {groups : Tree.Map CashClass ClassAccumulator} {whole : CashTotals} {k a : CashClass}
    {v : ClassAccumulator} :
    (CashFold.mk (groups.insert k v) whole).group a = if k = a then v else (CashFold.mk groups whole).group a := by
  unfold CashFold.group
  rw [Tree.get_insert]
  split <;> rfl

/-- What a row adds to a class: its cash, and its account to the list, when it is of the class. -/
theorem foldRow_ok {acc acc' : CashFold} {row : AssetAccount} (h : foldRow acc row = .ok acc') (hk : acc.Keyed) :
    acc'.Keyed ∧ (∀ c, amountIn acc'.whole c = amountIn acc.whole c + rowCash c row.cash) ∧
      (∀ k c, amountIn (acc'.group k).totals c =
        amountIn (acc.group k).totals c + if row.cashClass = k then rowCash c row.cash else 0) ∧
      ∀ k, (acc'.group k).accounts = (acc.group k).accounts ++ if row.cashClass = k then [row.account] else [] := by
  obtain ⟨totals, htotals, h⟩ := bind_ok.mp h
  cases h
  obtain ⟨⟨hkg, hkw⟩, hgroup, hwhole⟩ := foldFigures_ok htotals (hk.2 row.cashClass) hk.1
  refine ⟨⟨hkw, fun k => ?_⟩, hwhole, fun k c => ?_, fun k => ?_⟩
  · rw [group_insert]
    split
    · exact hkg
    · exact hk.2 k
  · rw [group_insert]
    split
    · next e =>
      subst e
      exact hgroup c
    · exact (add_zero _).symm
  · rw [group_insert]
    split
    · next e =>
      subst e
      rfl
    · exact (List.append_nil _).symm

/-- The rows of one class. -/
def ofClass (k : CashClass) (accounts : List AssetAccount) : List AssetAccount :=
  accounts.filter fun row => row.cashClass = k

/-- What the rows hold in one currency. -/
def rowsCash (c : CurrencyCode) (accounts : List AssetAccount) : Int := (accounts.map fun row => rowCash c row.cash).sum

theorem rowsCash_ofClass (c : CurrencyCode) (k : CashClass) (accounts : List AssetAccount) :
    rowsCash c (ofClass k accounts) =
      (accounts.map fun row => if row.cashClass = k then rowCash c row.cash else 0).sum := by
  rw [rowsCash, ofClass, Cut.sum_ite_zero]

theorem foldRows_ok {accounts : List AssetAccount} {acc acc' : CashFold} (h : accounts.foldlM foldRow acc = .ok acc')
    (hk : acc.Keyed) :
    acc'.Keyed ∧ (∀ c, amountIn acc'.whole c = amountIn acc.whole c + rowsCash c accounts) ∧
      (∀ k c, amountIn (acc'.group k).totals c = amountIn (acc.group k).totals c + rowsCash c (ofClass k accounts)) ∧
      ∀ k, (acc'.group k).accounts = (acc.group k).accounts ++ (ofClass k accounts).map AssetAccount.account := by
  induction accounts generalizing acc with
  | nil =>
    cases h
    exact ⟨hk, by simp [rowsCash], by simp [rowsCash, ofClass], by simp [ofClass]⟩
  | cons row accounts ih =>
    obtain ⟨next, hrow, h⟩ := bind_ok.mp h
    obtain ⟨hkn, hwhole, hgroup, hlist⟩ := foldRow_ok hrow hk
    obtain ⟨hkeyed, hwholes, hgroups, hlists⟩ := ih h hkn
    refine ⟨hkeyed, fun c => ?_, fun k c => ?_, fun k => ?_⟩
    · rw [hwholes c, hwhole c, rowsCash, rowsCash, List.map_cons, List.sum_cons, add_assoc]
    · rw [hgroups k c, hgroup k c, rowsCash_ofClass, rowsCash_ofClass, List.map_cons, List.sum_cons, add_assoc]
    · rw [hlists k, hlist k]
      by_cases e : row.cashClass = k <;> simp [ofClass, e]

/-- The line of a class. -/
def classLine (side : CashSide) (k : CashClass) : Option CashClassTotal :=
  side.classes.find? fun line => line.cashClass = k

/-- What the line of a class says of one currency; a class without a line has nothing. -/
def classSum (side : CashSide) (k : CashClass) (c : CurrencyCode) : Int :=
  ((classLine side k).map fun line => cashSum line.totals c).getD 0

def classAccounts (side : CashSide) (k : CashClass) : List AccountId :=
  ((classLine side k).map CashClassTotal.accounts).getD []

theorem classLine_finish (acc : CashFold) (k : CashClass) :
    classLine acc.finish k = acc.groups[k]?.map fun group => ⟨k, group.accounts, finishTotals group.totals⟩ := by
  unfold classLine CashFold.finish
  rw [List.find?_map]
  have hfind := Tree.find_toList (m := acc.groups) (k := k)
  simp only [Function.comp_def] at hfind ⊢
  rw [hfind, Option.map_map]
  rfl

/-- The cash of the snapshot is that of its rows, in the whole and in each class. -/
theorem foldCash_ok {accounts : List AssetAccount} {side : CashSide} (h : foldCash accounts = .ok side) :
    (∀ c, cashSum side.totals c = rowsCash c accounts) ∧
      (∀ k c, classSum side k c = rowsCash c (ofClass k accounts)) ∧
      ∀ k, classAccounts side k = (ofClass k accounts).map AssetAccount.account := by
  obtain ⟨acc, hacc, h⟩ := bind_ok.mp h
  cases h
  have hstart : (CashFold.mk ∅ ∅).Keyed := ⟨keyed_empty, fun k => by simpa [CashFold.group] using keyed_empty⟩
  obtain ⟨⟨hkw, hkg⟩, hwhole, hgroup, hlist⟩ := foldRows_ok hacc hstart
  refine ⟨fun c => ?_, fun k c => ?_, fun k => ?_⟩
  · have hsum : cashSum acc.finish.totals c = amountIn acc.whole c := cashSum_finishTotals hkw c
    rw [hsum, hwhole c]
    simp
  · have hline : classSum acc.finish k c = amountIn (acc.group k).totals c := by
      rw [classSum, classLine_finish, ← cashSum_finishTotals (hkg k), CashFold.group]
      cases acc.groups[k]? <;> rfl
    rw [hline, hgroup k c]
    simp [CashFold.group]
  · have hline : classAccounts acc.finish k = (acc.group k).accounts := by
      rw [classAccounts, classLine_finish, CashFold.group]
      cases acc.groups[k]? <;> rfl
    rw [hline, hlist k]
    simp [CashFold.group]

/-! ### The quantities -/

/-- The quantity of an instrument in a list of positions. -/
def heldIn (i : InstrumentId) (positions : List (PositionKey × Quantity)) : ℚ :=
  (positions.map fun entry => if entry.1.instrument = i then entry.2.val else 0).sum

/-- The quantity of an instrument over the rows. -/
def rowsHeld (i : InstrumentId) (accounts : List AssetAccount) : ℚ := (accounts.map fun row => heldIn i row.positions).sum

def quantityOf (quantities : Tree.Map InstrumentId Quantity) (i : InstrumentId) : Quantity := quantities[i]?.getD .zero

theorem addQuantity_ok {quantities quantities' : Tree.Map InstrumentId Quantity} {entry : PositionKey × Quantity}
    (h : addQuantity quantities entry = .ok quantities') (i : InstrumentId) :
    (quantityOf quantities' i).val = (quantityOf quantities i).val + (if entry.1.instrument = i then entry.2.val else 0) ∧
      (i ∈ quantities' ↔ i ∈ quantities ∨ entry.1.instrument = i) := by
  obtain ⟨sum, hsum, h⟩ := bind_ok.mp h
  cases h
  have hval := Dec.checkedAdd_ok.mp (mapError_ok.mp hsum)
  constructor
  · unfold quantityOf
    rw [Tree.get_insert]
    split
    · next e =>
      subst e
      exact hval
    · exact (add_zero _).symm
  · rw [Std.ExtTreeMap.mem_insert, compare_eq_iff_eq, or_comm]

theorem addQuantities_ok {positions : List (PositionKey × Quantity)} {start next : Tree.Map InstrumentId Quantity}
    (h : positions.foldlM addQuantity start = .ok next) (i : InstrumentId) :
    (quantityOf next i).val = (quantityOf start i).val + heldIn i positions ∧
      (i ∈ next ↔ i ∈ start ∨ ∃ entry ∈ positions, entry.1.instrument = i) := by
  have hrun := Runs.foldlM_ok.mp h
  constructor
  · refine hrun.adds (fun q => (quantityOf q i).val) (fun entry => if entry.1.instrument = i then entry.2.val else 0) ?_
    intro q entry q' _ hstep
    exact (addQuantity_ok hstep i).1
  · refine hrun.marks (P := fun q => i ∈ q) ?_
    intro q entry q' hstep
    exact (addQuantity_ok hstep i).2

/-- The quantity of an instrument is what the rows hold of it, and an instrument is there when a row names it. -/
theorem foldQuantities_ok {accounts : List AssetAccount} {quantities : Tree.Map InstrumentId Quantity}
    (h : foldQuantities accounts = .ok quantities) (i : InstrumentId) :
    (quantityOf quantities i).val = rowsHeld i accounts ∧
      (i ∈ quantities ↔ ∃ row ∈ accounts, ∃ entry ∈ row.positions, entry.1.instrument = i) := by
  have hrun := Runs.foldlM_ok.mp h
  constructor
  · have hsum := hrun.adds (fun q => (quantityOf q i).val) (fun row => heldIn i row.positions) (by
      intro q row q' _ hstep
      exact (addQuantities_ok hstep i).1)
    simpa [quantityOf, rowsHeld] using hsum
  · have hmem := hrun.marks (P := fun q => i ∈ q) (by
      intro q row q' hstep
      exact (addQuantities_ok hstep i).2)
    simpa using hmem

/-! ### The holdings -/

/-- What a list of calculated amounts says of one currency. -/
def calcSum (amounts : List CalcMoney) (c : CurrencyCode) : ℚ :=
  (amounts.map fun money => if money.currency = c then money.value.val else 0).sum

/-- The amount under each currency is in it. -/
def CalcKeyed (totals : Tree.Map CurrencyCode CalcMoney) : Prop :=
  ∀ (c : CurrencyCode) money, totals[c]? = some money → money.currency = c

def calcIn (totals : Tree.Map CurrencyCode CalcMoney) (c : CurrencyCode) : ℚ :=
  (totals[c]?.map fun money => money.value.val).getD 0

theorem calcSum_values {totals : Tree.Map CurrencyCode CalcMoney} (hk : CalcKeyed totals) (c : CurrencyCode) :
    calcSum (totals.toList.map (·.2)) c = calcIn totals c := by
  unfold calcSum calcIn
  rw [← Tree.total_at, Tree.total, List.map_map]
  congr 1
  refine List.map_congr_left fun entry hmem => ?_
  rw [Function.comp_apply, hk entry.1 entry.2 (Std.ExtTreeMap.mem_toList_iff_getElem?_eq_some.mp hmem)]

theorem calcMul_ok {m m' : CalcMoney} {factor : Dec} (h : m.checkedMul factor = .ok m') :
    m'.value.val = m.value.val * factor.val ∧ m'.currency = m.currency := by
  obtain ⟨value, hvalue, h⟩ := bind_ok.mp h
  cases h
  exact ⟨Dec.checkedMul_ok.mp (mapError_ok.mp hvalue), rfl⟩

theorem addCalc_ok {totals totals' : Tree.Map CurrencyCode CalcMoney} {money : CalcMoney}
    (h : addCalc totals money = .ok totals') (hk : CalcKeyed totals) :
    CalcKeyed totals' ∧
      ∀ c, calcIn totals' c = calcIn totals c + if money.currency = c then money.value.val else 0 := by
  obtain ⟨sum, hsum, h⟩ := bind_ok.mp h
  cases h
  obtain ⟨-, hval, hcur⟩ := CalcMoney.checkedAdd_ok.mp (mapError_ok.mp hsum)
  have hslot : (totals[money.currency]?.getD ⟨.zero, money.currency⟩).currency = money.currency := by
    cases hget : totals[money.currency]? with
    | none => rfl
    | some old => exact hk _ old hget
  constructor
  · intro c old hget
    rw [Tree.get_insert] at hget
    split at hget
    · next e =>
      cases hget
      exact (hcur.trans hslot).trans e
    · exact hk c old hget
  · intro c
    unfold calcIn
    rw [Tree.get_insert]
    split
    · next e =>
      subst e
      rw [Option.map_some, Option.getD_some, hval]
      cases totals[money.currency]? <;> rfl
    · exact (add_zero _).symm

/-- The money for one unit of an instrument, when the snapshot can give it. -/
def unitPrice (prices : SnapshotPrices) (asOf : Date) (i : InstrumentId) : Option (Dec × CurrencyCode) :=
  (quoted (priceOf prices asOf i)).bind fun quote => moneyPerUnit quote prices.schedules i asOf

/-- What a quantity of an instrument is worth in one currency; without a price it is in no total. -/
def worthIn (prices : SnapshotPrices) (asOf : Date) (c : CurrencyCode) (i : InstrumentId) (q : Quantity) : ℚ :=
  ((unitPrice prices asOf i).map fun unit => if unit.2 = c then unit.1.val * q.val else 0).getD 0

/-- The line of a holding: its value is the price of a unit times the quantity. -/
structure IsHolding (prices : SnapshotPrices) (asOf : Date) (entry : InstrumentId × Quantity) (line : HoldingValue) :
    Prop where
  instrument : line.instrument = entry.1
  quantity : line.quantity = entry.2
  value : (line.value.map fun money => (money.value.val, money.currency)) =
    (unitPrice prices asOf entry.1).map fun unit => (unit.1.val * entry.2.val, unit.2)

theorem foldHolding_ok {prices : SnapshotPrices} {asOf : Date} {acc acc' : HoldingFold}
    {entry : InstrumentId × Quantity} (h : foldHolding prices asOf acc entry = .ok acc') (hk : CalcKeyed acc.totals) :
    CalcKeyed acc'.totals ∧ (∀ c, calcIn acc'.totals c = calcIn acc.totals c + worthIn prices asOf c entry.1 entry.2) ∧
      ∃ line, acc'.holdings = acc.holdings ++ [line] ∧ IsHolding prices asOf entry line := by
  rcases entry with ⟨i, q⟩
  have hunit : unitPrice prices asOf i =
    (quoted (priceOf prices asOf i)).bind fun quote => moneyPerUnit quote prices.schedules i asOf := rfl
  simp only [foldHolding] at h
  rw [← hunit] at h
  split at h
  · next quote perUnit currency hquote hprice =>
    obtain ⟨value, hvalue, h⟩ := bind_ok.mp h
    obtain ⟨totals, htotals, h⟩ := bind_ok.mp h
    cases h
    obtain ⟨hval, hcur⟩ := calcMul_ok (mapError_ok.mp hvalue)
    obtain ⟨hkeyed, hsum⟩ := addCalc_ok htotals hk
    refine ⟨hkeyed, fun c => ?_, _, rfl, rfl, rfl, ?_⟩
    · simp only [hsum c, worthIn, hprice, hcur, hval, Option.map_some, Option.getD_some]
    · simp only [hprice, Option.map_some, hval, hcur]
  · next hnone =>
    cases h
    have hprice : unitPrice prices asOf i = none := by
      cases hquote : quoted (priceOf prices asOf i) with
      | none => rw [hunit, hquote, Option.bind_none]
      | some quote =>
        cases hprice : unitPrice prices asOf i with
        | none => rfl
        | some unit => exact absurd hprice (hnone quote unit.1 unit.2 hquote)
    refine ⟨hk, fun c => ?_, _, rfl, rfl, rfl, ?_⟩
    · simp [worthIn, hprice]
    · simp [hprice]

/-- The holdings are one line for each instrument, and their totals the sum of what they are worth. -/
theorem foldHoldings_ok {prices : SnapshotPrices} {asOf : Date} {entries : List (InstrumentId × Quantity)}
    {acc acc' : HoldingFold} (h : entries.foldlM (foldHolding prices asOf) acc = .ok acc') (hk : CalcKeyed acc.totals) :
    CalcKeyed acc'.totals ∧
      (∀ c, calcIn acc'.totals c =
        calcIn acc.totals c + (entries.map fun entry => worthIn prices asOf c entry.1 entry.2).sum) ∧
      ∃ lines, acc'.holdings = acc.holdings ++ lines ∧ List.Forall₂ (IsHolding prices asOf) entries lines := by
  induction entries generalizing acc with
  | nil =>
    cases h
    exact ⟨hk, by simp, [], by simp, .nil⟩
  | cons entry entries ih =>
    obtain ⟨next, hentry, h⟩ := bind_ok.mp h
    obtain ⟨hkn, hsum, line, hline, hholding⟩ := foldHolding_ok hentry hk
    obtain ⟨hkeyed, hsums, lines, hlines, hholdings⟩ := ih h hkn
    refine ⟨hkeyed, fun c => ?_, line :: lines, ?_, .cons hholding hholdings⟩
    · rw [hsums c, hsum c, List.map_cons, List.sum_cons, add_assoc]
    · rw [hlines, hline, List.append_assoc, List.singleton_append]

/-! ### The stated values -/

/-- The minor units of the amounts of one currency. -/
def moneySum (amounts : List Money) (c : CurrencyCode) : Int :=
  (amounts.map fun money => if money.currency = c then money.amount.raw else 0).sum

/-- What the stated value of a row adds to one currency, when it counts. -/
def rowStated (c : CurrencyCode) (row : AssetAccount) : Int :=
  ((activeStated row).map fun stated => if stated.amount.currency = c then stated.amount.amount.raw else 0).getD 0

theorem pushAmounts_get (amounts : List Money) (byCurrency : Tree.Map CurrencyCode (List Money)) (c : CurrencyCode) :
    (amounts.foldl pushAmount byCurrency)[c]?.getD [] =
      byCurrency[c]?.getD [] ++ amounts.filter fun money => money.currency = c := by
  induction amounts generalizing byCurrency with
  | nil => simp
  | cons money amounts ih =>
    rw [List.foldl_cons, ih, pushAmount, Tree.get_insert, List.filter_cons]
    by_cases e : money.currency = c <;> simp [e]

theorem statedTotals_ok {amounts totals : List Money}
    (h : ((amounts.foldl pushAmount ∅).toList.mapM fun entry => Money.sum entry.2 entry.1) = .ok totals)
    (c : CurrencyCode) : moneySum totals c = moneySum amounts c := by
  have hlines : ∀ {entries : List (CurrencyCode × List Money)} {totals : List Money},
      List.Forall₂ (fun entry money => Money.sum entry.2 entry.1 = .ok money) entries totals →
      moneySum totals c = (entries.map fun entry =>
        if entry.1 = c then (entry.2.map fun money => money.amount.raw).sum else 0).sum := by
    intro entries totals hall
    induction hall with
    | nil => rfl
    | cons hsum _ ih =>
      obtain ⟨hcur, hraw, -⟩ := Money.sum_ok hsum
      unfold moneySum at ih ⊢
      simp only [List.map_cons, List.sum_cons, ih, hcur, hraw]
  have htotal := Tree.total_at (m := amounts.foldl pushAmount ∅) c
    (fun list : List Money => (list.map fun money => money.amount.raw).sum)
  rw [Tree.total] at htotal
  rw [hlines (Runs.mapM_ok.mp h), htotal, moneySum, Cut.sum_ite_zero]
  have hget := pushAmounts_get amounts ∅ c
  rw [show ((∅ : Tree.Map CurrencyCode (List Money))[c]?).getD [] = [] by simp, List.nil_append] at hget
  rw [← hget]
  cases (amounts.foldl pushAmount ∅)[c]? <;> rfl

theorem stated_amounts (accounts : List AssetAccount) (c : CurrencyCode) :
    moneySum ((accounts.filterMap activeStated).map StatedSecurities.amount) c = (accounts.map (rowStated c)).sum := by
  unfold moneySum rowStated
  rw [Cut.sum_filterMap, List.map_map]
  rfl

/-! ### The snapshot -/

/-- The positions of the snapshot: what the quantities are worth, and what was stated. -/
theorem foldPositions_ok {accounts : List AssetAccount} {prices : SnapshotPrices} {asOf : Date} {side : PositionsSide}
    (h : foldPositions accounts prices asOf = .ok side) :
    ∃ quantities, foldQuantities accounts = .ok quantities ∧
      (∀ c, calcSum side.totals c = Tree.total quantities (worthIn prices asOf c)) ∧
      (∀ c, moneySum side.statedTotals c = (accounts.map (rowStated c)).sum) ∧
      List.Forall₂ (IsHolding prices asOf) quantities.toList side.holdings := by
  obtain ⟨quantities, hquantities, h⟩ := bind_ok.mp h
  obtain ⟨acc, hacc, h⟩ := bind_ok.mp h
  obtain ⟨totals, htotals, h⟩ := bind_ok.mp h
  cases h
  have hempty : CalcKeyed ∅ := by
    intro c money hget
    simp at hget
  obtain ⟨hkeyed, hsum, lines, hlines, hholdings⟩ := foldHoldings_ok hacc hempty
  refine ⟨quantities, hquantities, fun c => ?_, fun c => ?_, ?_⟩
  · rw [calcSum_values hkeyed, hsum c]
    simp [calcIn, Tree.total]
  · rw [statedTotals_ok (mapError_ok.mp htotals), stated_amounts]
  · rw [hlines, List.nil_append]
    exact hholdings

theorem assetSnapshot_ok {asOf : Date} {report : BalancesReport} {classes : Tree.Map AccountId String}
    {prices : SnapshotPrices} {s : AssetSnapshot} (h : assetSnapshot asOf report classes prices = .ok s) :
    s.accounts = (report.accounts.filter fun row => !retiredAndEmpty report.population asOf row).map
        (assetAccount classes) ∧
      foldCash s.accounts = .ok s.cash ∧ foldPositions s.accounts prices asOf = .ok s.positions := by
  obtain ⟨cash, hcash, h⟩ := bind_ok.mp h
  obtain ⟨positions, hpositions, h⟩ := bind_ok.mp h
  obtain ⟨total, -, h⟩ := bind_ok.mp h
  cases h
  exact ⟨rfl, hcash, hpositions⟩

end Assets
end Iaam
