import Iaam.Returns
import Iaam.Theorems.Suppression
import Mathlib.Algebra.BigOperators.Ring.List

/-! One holding has one value: what the asset snapshot and the returns report make of one decision of the
price. -/

namespace Iaam
namespace Returns
open Outcome Assets

/-! ### The price of a unit -/

/-- The channels of the prices as the returns report reads them. -/
def pricesOf (state : LedgerState) (request : ReturnsRequest) : SnapshotPrices :=
  ⟨state.prices, request.marketPrices, request.bondSchedules, request.coordinate⟩

/-- The money for one unit, as the returns report gets it from a quotation. -/
def unitOf (instrument : InstrumentId) (price : Dec) (basis : QuotationBasis) (currency : CurrencyCode)
    (face : Except NotComputable (Option PerUnitAmount)) : Computed (Dec × CurrencyCode) := do
  let remainingFace ← faceFor basis face
  (QuotationV1.moneyPerUnit basis price currency remainingFace).mapError (quotationError instrument)

/-- The value of a quantity at a price of a unit. -/
def valued (request : ReturnsRequest) (quantity : Quantity) (unit : Dec × CurrencyCode) : Computed Dec := do
  let localValue ← (quantity.checkedMul unit.1).mapError fun _ => .numeric "numeric"
  match request.fx.rate unit.2 request.reportCurrency request.asOf with
  | none => .error (.missingFxRate unit.2 request.reportCurrency request.asOf)
  | some rate => (localValue.checkedMul rate).mapError fun _ => .numeric "numeric"

section
variable {state : LedgerState} {request : ReturnsRequest} {i : InstrumentId}

theorem positionValue_eq (assessment : PositionAssessment) (price : Dec) (basis : QuotationBasis)
    (currency : CurrencyCode) (face : Except NotComputable (Option PerUnitAmount)) :
    positionValue assessment price basis currency face request =
      if contradicted assessment.kind then .error (.quotationBasisContradictsEvidence assessment.instrument)
      else unitOf assessment.instrument price basis currency face >>= valued request assessment.quantity := by
  unfold positionValue unitOf
  rw [bind_assoc]
  rfl

/-- The two reports turn a quotation into the money of a unit alike. -/
theorem unitOf_eq (price : Dec) (basis : QuotationBasis) (currency : CurrencyCode) (date : Date) :
    (unitOf i price basis currency (remainingFace request i)).toOption =
      moneyPerUnit (price, currency, basis, date) request.bondSchedules i request.asOf := by
  cases basis with
  | moneyPerUnit => rfl
  | unknown => rfl
  | percentOfRemainingFace =>
    cases hschedule : request.bondSchedules[i]? with
    | none =>
      simp only [unitOf, faceFor, remainingFace, moneyPerUnit, hschedule]
      rfl
    | some schedule =>
      simp only [unitOf, faceFor, remainingFace, moneyPerUnit, hschedule, Option.bind_eq_bind, Option.bind_some]
      cases Bond.remainingPrincipal schedule request.asOf with
      | error e => rfl
      | ok face =>
        simp only [Except.mapError, Except.map, ok_bind, Except.toOption, Option.bind_some]
        cases QuotationV1.moneyPerUnit .percentOfRemainingFace price currency (some face) <;> rfl

/-- The newest price of the journal is the one at or before the date. -/
theorem legacyDerived_price {inputs : PriceInputs} {query : PriceQuery} {quality : PriceQuality}
    {price : Option InstrumentPrice} (h : decidePrice inputs query = .legacyDerived quality price) :
    price = inputs.board.priceAtOrBefore query.instrument query.asOf := by
  simp only [decidePrice] at h
  split at h
  · split at h
    · cases h
      rw [PriceBoard.observationsAtOrBefore, List.head?_reverse, PriceBoard.priceAtOrBefore]
    · cases h
  · split at h <;> cases h

/-- A position is valued at the price of a unit of the asset snapshot, and not at all when there is none. -/
theorem assessedValue_cases (state : LedgerState) (request : ReturnsRequest) (entry : PositionKey × Quantity) :
    (∃ unit, unitPrice (pricesOf state request) request.asOf entry.1.instrument = some unit ∧
        assessedValue request (assess state request entry) = valued request entry.2 unit) ∨
      unitPrice (pricesOf state request) request.asOf entry.1.instrument = none ∧
        ∃ e, assessedValue request (assess state request entry) = .error e := by
  have hprice : priceOf (pricesOf state request) request.asOf entry.1.instrument =
    decisionOf state request entry.1.instrument := rfl
  rw [unitPrice, hprice]
  simp only [assessedValue, assess]
  cases hd : decisionOf state request entry.1.instrument with
  | selected price =>
    simp only [kindOf]
    rw [positionValue_eq]
    by_cases hcontra : price.candidate.basisEvidenceContradicts = true
    · right
      exact ⟨by simp [quoted, hcontra], _, if_pos hcontra⟩
    · have hquoted : quoted (.selected price) =
          some (price.candidate.price, price.candidate.currency, price.candidate.basis, price.candidate.tradeDate) :=
        if_neg hcontra
      have hunit : _ = moneyPerUnit _ request.bondSchedules entry.1.instrument request.asOf :=
        unitOf_eq price.candidate.price price.candidate.basis price.candidate.currency price.candidate.tradeDate
      rw [hquoted, Option.bind_some, if_neg (by simpa only [contradicted] using hcontra)]
      cases hof : unitOf entry.1.instrument price.candidate.price price.candidate.basis price.candidate.currency
          (remainingFace request entry.1.instrument) with
      | error e =>
        rw [hof] at hunit
        exact .inr ⟨hunit.symm, e, rfl⟩
      | ok unit =>
        rw [hof] at hunit
        exact .inl ⟨unit, hunit.symm, rfl⟩
  | legacyDerived quality price =>
    -- the old determination is attached to the newest price of the journal, which the returns report reads itself
    have hraw : price = state.prices.priceAtOrBefore entry.1.instrument request.asOf := legacyDerived_price hd
    rw [← hraw]
    cases price with
    | none => exact .inr ⟨rfl, _, rfl⟩
    | some found =>
      left
      refine ⟨(found.price, found.currency), rfl, ?_⟩
      simp only [kindOf, positionValue_eq, contradicted]
      rfl
  | uncovered reason => exact .inr ⟨rfl, _, rfl⟩

theorem valued_ok {quantity : Quantity} {unit : Dec × CurrencyCode} {d : Dec}
    (h : valued request quantity unit = .ok d) :
    ∃ rate, request.fx.rate unit.2 request.reportCurrency request.asOf = some rate ∧
      d.val = quantity.val * unit.1.val * rate.val := by
  obtain ⟨m, hm, h⟩ := bind_ok.mp h
  split at h
  · cases h
  · next rate hrate =>
    refine ⟨rate, hrate, ?_⟩
    rw [Dec.checkedMul_ok.mp (mapError_ok.mp h), Dec.checkedMul_ok.mp (mapError_ok.mp hm)]

/-- With a rate, the value is refused only when it is out of range. -/
theorem valued_of_rate {quantity : Quantity} {unit : Dec × CurrencyCode} {rate : Dec}
    (hrate : request.fx.rate unit.2 request.reportCurrency request.asOf = some rate)
    (hrange : valued request quantity unit ≠ .error (.numeric "numeric")) : ∃ d, valued request quantity unit = .ok d := by
  unfold valued at hrange ⊢
  rw [hrate] at hrange ⊢
  cases hm : quantity.checkedMul unit.1 with
  | error e =>
    rw [hm] at hrange
    exact absurd rfl hrange
  | ok m =>
    simp only [hm, Except.mapError, ok_bind] at hrange ⊢
    cases hd : m.checkedMul rate with
    | error e =>
      rw [hd] at hrange
      exact absurd rfl hrange
    | ok d => exact ⟨d, rfl⟩

end

/-! ### The positions of an instrument -/

/-- The covered accounts of a population are those of the contour, each once. -/
structure Covers (population : ReportPopulation) (contour : ContourDefinition) : Prop where
  nodup : (population.covered.map PopulationAccount.account).Nodup
  mem : ∀ account, account ∈ population.covered.map PopulationAccount.account ↔ contour.contains account = true

/-- The snapshot gives the instrument a value. -/
def Gives (s : AssetSnapshot) (i : InstrumentId) (value : CalcMoney) : Prop :=
  ∃ line ∈ s.positions.holdings, line.instrument = i ∧ line.value = some value

/-- The positions of an instrument in the returns report. -/
def positionsOf (state : LedgerState) (request : ReturnsRequest) (i : InstrumentId) : List PositionValue :=
  (positionValues state request).filter fun position => position.assessment.instrument = i

/-- What positions are worth together; one without a value adds nothing. -/
def valueSum (positions : List PositionValue) : ℚ :=
  (positions.map fun position => (position.value.toOption.map Dec.val).getD 0).sum

/-- The entries of the state behind the positions of an instrument. -/
def entriesOf (state : LedgerState) (request : ReturnsRequest) (i : InstrumentId) : List (PositionKey × Quantity) :=
  (state.balances.iterPositions.filter fun entry => request.contour.contains entry.1.account && !entry.2.isZero).filter
    fun entry => entry.1.instrument = i

theorem positionsOf_eq (state : LedgerState) (request : ReturnsRequest) (i : InstrumentId) :
    positionsOf state request i = (entriesOf state request i).map fun entry =>
      ⟨assess state request entry, assessedValue request (assess state request entry)⟩ := by
  unfold positionsOf positionValues positionAssessments entriesOf
  rw [List.map_map, List.filter_map]
  rfl

section
variable {state : LedgerState} {request : ReturnsRequest} {population : ReportPopulation} {anchors : OpeningAnchors}
  {stated : AccountId → Option StatedSecuritiesValue} {i : InstrumentId}

/-- The rows hold of an instrument what the positions of the contour hold of it. -/
theorem rowsHeld_eq (hcovers : Covers population request.contour) :
    ((balancesReport state.balances anchors stated population).accounts.map fun row => heldIn i row.positions).sum =
      ((entriesOf state request i).map fun entry => entry.2.val).sum := by
  have hsplit : Cut.Splits (fun entry : PositionKey × Quantity => request.contour.contains entry.1.account)
      (fun entry => request.contour.contains entry.1.account && !entry.2.isZero)
      (fun entry => request.contour.contains entry.1.account && entry.2.isZero) state.balances.iterPositions := by
    intro entry _
    cases hin : request.contour.contains entry.1.account <;> cases hz : entry.2.isZero <;> simp [hin, hz]
  have hzero : ((state.balances.iterPositions.filter fun entry =>
      request.contour.contains entry.1.account && entry.2.isZero).map fun entry =>
        if entry.1.instrument = i then entry.2.val else 0).sum = 0 := by
    refine List.sum_eq_zero fun x hx => ?_
    obtain ⟨entry, hentry, rfl⟩ := List.mem_map.mp hx
    have hz := (List.mem_filter.mp hentry).2
    simp only [Bool.and_eq_true, Dec.isZero_iff] at hz
    simp [hz.2]
  calc ((balancesReport state.balances anchors stated population).accounts.map fun row => heldIn i row.positions).sum
      = ((population.covered.map PopulationAccount.account).map fun account =>
          ((state.balances.iterPositions.filter fun entry => entry.1.account = account).map fun entry =>
            if entry.1.instrument = i then entry.2.val else 0).sum).sum := by
        rw [balancesReport, List.map_map, List.map_map]
        rfl
    _ = ((state.balances.iterPositions.filter fun entry => request.contour.contains entry.1.account).map fun entry =>
          if entry.1.instrument = i then entry.2.val else 0).sum := by
        rw [Cut.sum_partition hcovers.nodup]
        simp only [hcovers.mem, Bool.decide_eq_true]
    _ = ((entriesOf state request i).map fun entry => entry.2.val).sum := by
        rw [Cut.sum_eq_add hsplit, hzero, add_zero, entriesOf, Cut.sum_ite_zero]

theorem mem_entriesOf {entry : PositionKey × Quantity} :
    entry ∈ entriesOf state request i ↔ entry ∈ state.balances.iterPositions ∧
      request.contour.contains entry.1.account = true ∧ entry.2.val ≠ 0 ∧ entry.1.instrument = i := by
  simp only [entriesOf, List.mem_filter, Bool.and_eq_true, Bool.not_eq_true', decide_eq_true_eq, and_assoc]
  rw [← Bool.not_eq_true, Dec.isZero_iff]

/-- The row of a position that is not zero is shown. -/
theorem exists_shown (hcovers : Covers population request.contour) (classes : Tree.Map AccountId String)
    {entry : PositionKey × Quantity} (hentry : entry ∈ entriesOf state request i) :
    ∃ row ∈ ((balancesReport state.balances anchors stated population).accounts.filter fun row =>
        !retiredAndEmpty population request.asOf row).map (assetAccount classes),
      entry ∈ row.positions := by
  obtain ⟨hmem, hin, hne, -⟩ := mem_entriesOf.mp hentry
  have hposition : entry ∈ (accountBalanceRow state.balances anchors stated entry.1.account).positions :=
    List.mem_filter.mpr ⟨hmem, by simp⟩
  obtain ⟨covered, hcovered, haccount⟩ := List.mem_map.mp ((hcovers.mem entry.1.account).mpr hin)
  refine ⟨assetAccount classes (accountBalanceRow state.balances anchors stated entry.1.account), ?_, hposition⟩
  refine List.mem_map_of_mem (List.mem_filter.mpr ⟨List.mem_map.mpr ⟨covered, hcovered, by rw [haccount]⟩, ?_⟩)
  rw [Bool.not_eq_true', ← Bool.not_eq_true]
  intro hempty
  simp only [retiredAndEmpty, Bool.and_eq_true, List.all_eq_true, Dec.isZero_iff] at hempty
  exact hne (hempty.2 entry hposition)

variable {classes : Tree.Map AccountId String} {s : AssetSnapshot}

/-- The value the snapshot gives an instrument: the price of a unit for all that the contour holds of it. -/
theorem gives_of_snapshot (hcovers : Covers population request.contour)
    (hs : assetSnapshot request.asOf (balancesReport state.balances anchors stated population) classes
      (pricesOf state request) = .ok s) {held : PositionKey × Quantity} (hheld : held ∈ entriesOf state request i) :
    (∀ value, Gives s i value → ∃ unit, unitPrice (pricesOf state request) request.asOf i = some unit ∧
        value.currency = unit.2 ∧
        value.value.val = unit.1.val * ((entriesOf state request i).map fun entry => entry.2.val).sum) ∧
      ∀ unit, unitPrice (pricesOf state request) request.asOf i = some unit →
        ∃ value, Gives s i value ∧ value.currency = unit.2 := by
  obtain ⟨haccounts, -, hpositions⟩ := assetSnapshot_ok hs
  rw [haccounts] at hpositions
  obtain ⟨quantities, hquantities, -, -, hlines⟩ := foldPositions_ok hpositions
  obtain ⟨hsum, hmem⟩ := foldQuantities_ok hquantities i
  have hquantity : (quantityOf quantities i).val = ((entriesOf state request i).map fun entry => entry.2.val).sum := by
    rw [hsum, rowsHeld, List.map_map, ← rowsHeld_eq hcovers]
    exact sum_shown fun row hrow => heldIn_of_empty hrow i
  have hthere : quantities[i]? = some (quantityOf quantities i) := by
    obtain ⟨row, hrow, hentry⟩ := exists_shown hcovers classes hheld
    have hin := hmem.mpr ⟨row, hrow, held, hentry, (mem_entriesOf.mp hheld).2.2.2⟩
    obtain ⟨q, hq⟩ := Option.isSome_iff_exists.mp (Std.ExtTreeMap.mem_iff_isSome_getElem?.mp hin)
    rw [quantityOf, hq]
    rfl
  rw [← hquantity]
  constructor
  · rintro value ⟨line, hline, hinstrument, hvalue⟩
    obtain ⟨entry, hentry, hholding⟩ := Runs.exists_left hlines hline
    have hkey : entry.1 = i := hholding.instrument.symm.trans hinstrument
    have hget := Std.ExtTreeMap.mem_toList_iff_getElem?_eq_some.mp hentry
    rw [hkey, hthere, Option.some.injEq] at hget
    have hmap := hholding.value
    rw [hvalue, hkey, ← hget] at hmap
    obtain ⟨unit, hunit, hpair⟩ := Option.map_eq_some_iff.mp hmap.symm
    obtain ⟨hval, hcur⟩ := Prod.mk.inj hpair
    exact ⟨unit, hunit, hcur.symm, hval.symm⟩
  · intro unit hunit
    obtain ⟨line, hline, hholding⟩ := Runs.exists_right hlines
      (Std.ExtTreeMap.mem_toList_iff_getElem?_eq_some.mpr hthere)
    have hmap := hholding.value
    rw [hunit, Option.map_some] at hmap
    obtain ⟨money, hmoney, hpair⟩ := Option.map_eq_some_iff.mp hmap
    exact ⟨money, ⟨line, hline, hholding.instrument, hmoney⟩, (Prod.mk.inj hpair).2⟩

/-- A position of the instrument, by the price of a unit. -/
theorem mem_positionsOf {position : PositionValue} (h : position ∈ positionsOf state request i) :
    ∃ entry ∈ entriesOf state request i, position.value = assessedValue request (assess state request entry) := by
  rw [positionsOf_eq] at h
  obtain ⟨entry, hentry, rfl⟩ := List.mem_map.mp h
  exact ⟨entry, hentry, rfl⟩

theorem positionsOf_mem {entry : PositionKey × Quantity} (h : entry ∈ entriesOf state request i) :
    ⟨assess state request entry, assessedValue request (assess state request entry)⟩ ∈ positionsOf state request i := by
  rw [positionsOf_eq]
  exact List.mem_map_of_mem h

/-- With a price and a rate the positions are worth the quantity times both. -/
theorem valueSum_eq {unit : Dec × CurrencyCode} {rate : Dec}
    (hunit : unitPrice (pricesOf state request) request.asOf i = some unit)
    (hrate : request.fx.rate unit.2 request.reportCurrency request.asOf = some rate)
    (hvalued : ∀ position ∈ positionsOf state request i, ∃ d, position.value = .ok d) :
    valueSum (positionsOf state request i) =
      unit.1.val * ((entriesOf state request i).map fun entry => entry.2.val).sum * rate.val := by
  have hmap : (positionsOf state request i).map (fun position => (position.value.toOption.map Dec.val).getD 0) =
      (entriesOf state request i).map fun entry => entry.2.val * (unit.1.val * rate.val) := by
    rw [positionsOf_eq, List.map_map]
    refine List.map_congr_left fun entry hentry => ?_
    obtain ⟨d, hd⟩ := hvalued _ (positionsOf_mem hentry)
    have hi : entry.1.instrument = i := (mem_entriesOf.mp hentry).2.2.2
    rcases assessedValue_cases state request entry with ⟨found, hfound, hvalue⟩ | ⟨hnone, -⟩
    · rw [hi, hunit, Option.some.injEq] at hfound
      subst hfound
      rw [hvalue] at hd
      replace hd : valued request entry.2 unit = .ok d := hd
      obtain ⟨rate', hrate', hval⟩ := valued_ok hd
      rw [hrate, Option.some.injEq] at hrate'
      subst hrate'
      simp only [Function.comp_apply, hvalue, hd, Except.toOption, Option.map_some, Option.getD_some, hval, mul_assoc]
    · rw [hi, hunit] at hnone
      cases hnone
  rw [valueSum, hmap, List.sum_map_mul_right, mul_comm (List.sum _), mul_right_comm]

/-- One holding has one value. Of an instrument held in the contour, the snapshot gives a value in a currency with
    a rate exactly when the returns report values each of its positions, and then that value at the rate is what
    the positions are worth together. No position is refused for its size. -/
theorem one_holding_one_value (hcovers : Covers population request.contour)
    (hs : assetSnapshot request.asOf (balancesReport state.balances anchors stated population) classes
      (pricesOf state request) = .ok s)
    (hheld : ∃ entry ∈ state.balances.iterPositions, request.contour.contains entry.1.account = true ∧
      entry.2.val ≠ 0 ∧ entry.1.instrument = i)
    (hrange : ∀ position ∈ positionsOf state request i, position.value ≠ .error (.numeric "numeric")) :
    ((∃ value rate, Gives s i value ∧ request.fx.rate value.currency request.reportCurrency request.asOf = some rate) ↔
        ∀ position ∈ positionsOf state request i, ∃ d, position.value = .ok d) ∧
      ∀ value rate, Gives s i value → request.fx.rate value.currency request.reportCurrency request.asOf = some rate →
        valueSum (positionsOf state request i) = value.value.val * rate.val := by
  obtain ⟨held, hmem, hin, hne, hi⟩ := hheld
  have hheld : held ∈ entriesOf state request i := mem_entriesOf.mpr ⟨hmem, hin, hne, hi⟩
  obtain ⟨hgives, hgiven⟩ := gives_of_snapshot hcovers hs hheld
  -- a price and a rate value every position
  have hall : ∀ unit rate, unitPrice (pricesOf state request) request.asOf i = some unit →
      request.fx.rate unit.2 request.reportCurrency request.asOf = some rate →
      ∀ position ∈ positionsOf state request i, ∃ d, position.value = .ok d := by
    intro unit rate hunit hrate position hposition
    obtain ⟨entry, hentry, hvalue⟩ := mem_positionsOf hposition
    have hfits := hrange position hposition
    rw [hvalue] at hfits ⊢
    rcases assessedValue_cases state request entry with ⟨found, hfound, hassessed⟩ | ⟨hnone, -⟩
    · rw [(mem_entriesOf.mp hentry).2.2.2, hunit, Option.some.injEq] at hfound
      subst hfound
      rw [hassessed] at hfits ⊢
      exact valued_of_rate hrate hfits
    · rw [(mem_entriesOf.mp hentry).2.2.2, hunit] at hnone
      cases hnone
  refine ⟨⟨?_, fun hvalued => ?_⟩, fun value rate hvalue hrate => ?_⟩
  · rintro ⟨value, rate, hvalue, hrate⟩
    obtain ⟨unit, hunit, hcur, -⟩ := hgives value hvalue
    rw [hcur] at hrate
    exact hall unit rate hunit hrate
  · -- the position at hand has a value, hence a price and a rate
    obtain ⟨d, hd⟩ := hvalued _ (positionsOf_mem hheld)
    rcases assessedValue_cases state request held with ⟨unit, hunit, hassessed⟩ | ⟨-, e, hassessed⟩
    · rw [hi] at hunit
      obtain ⟨rate, hrate, -⟩ := valued_ok (hassessed.symm.trans hd)
      obtain ⟨value, hvalue, hcur⟩ := hgiven unit hunit
      exact ⟨value, rate, hvalue, by rw [hcur, hrate]⟩
    · cases hassessed.symm.trans hd
  · obtain ⟨unit, hunit, hcur, hval⟩ := hgives value hvalue
    rw [hcur] at hrate
    rw [valueSum_eq hunit hrate (hall unit rate hunit hrate), hval]

end

/-- Ten units of an instrument in an account, at seven dollars each. -/
def sampleState : LedgerState :=
  { LedgerState.new (.new 1) with
    balances := ⟨∅, (∅ : Tree.Map PositionKey Quantity).insert ⟨⟨1⟩, ⟨1⟩⟩ (.ofInt64 10)⟩
    prices := PriceBoard.empty.record ⟨⟨1⟩, .ofInt64 7, .usd, .previousClose, ⟨0⟩⟩ }

/-- A report in roubles, at ninety roubles a dollar. -/
def sampleRequest : ReturnsRequest where
  contour := ⟨⟨1⟩, 1, (∅ : Tree.Set AccountId).insert ⟨1⟩⟩
  asOf := ⟨1⟩
  reportCurrency := .rub
  fx := (FxTable.new .cbrOfficial).withRate .usd .rub ⟨1⟩ (.ofInt64 90)
  coordinate := ⟨⟨0⟩, 1, 1⟩
  marketPrices := []
  bondSchedules := ∅

def samplePopulation : ReportPopulation := ⟨[⟨⟨1⟩, .covered, none⟩]⟩

theorem ten_units_one_value :
    ∃ s value rate, assetSnapshot sampleRequest.asOf (balancesReport sampleState.balances (.of []) (fun _ => none)
        samplePopulation) ∅ (pricesOf sampleState sampleRequest) = .ok s ∧ Gives s ⟨1⟩ value ∧
      valueSum (positionsOf sampleState sampleRequest ⟨1⟩) = value.value.val * Dec.val rate := by
  obtain ⟨s, hs⟩ := exists_ok (x := assetSnapshot sampleRequest.asOf (balancesReport sampleState.balances (.of [])
    (fun _ => none) samplePopulation) ∅ (pricesOf sampleState sampleRequest)) (by decide +kernel)
  have hcovers : Covers samplePopulation sampleRequest.contour := by
    refine ⟨by decide, fun account => ?_⟩
    rw [ContourDefinition.contains, decide_eq_true_eq, sampleRequest, Tree.mem_insert_set]
    simp [samplePopulation, ReportPopulation.covered, eq_comm]
  have hvalued : ∀ position ∈ positionsOf sampleState sampleRequest ⟨1⟩, ∃ d, position.value = .ok d := by
    have hall : ((positionsOf sampleState sampleRequest ⟨1⟩).all fun position => position.value.isOk) = true := by
      decide +kernel
    intro position hposition
    exact exists_ok (List.all_eq_true.mp hall position hposition)
  have hrange : ∀ position ∈ positionsOf sampleState sampleRequest ⟨1⟩,
      position.value ≠ .error (.numeric "numeric") := by
    intro position hposition herror
    obtain ⟨d, hd⟩ := hvalued position hposition
    cases hd.symm.trans herror
  obtain ⟨hiff, hsum⟩ := one_holding_one_value hcovers hs
    ⟨(⟨⟨1⟩, ⟨1⟩⟩, .ofInt64 10), by decide, by decide, by decide, rfl⟩ hrange
  obtain ⟨value, rate, hvalue, hrate⟩ := hiff.mpr hvalued
  exact ⟨s, value, rate, hs, hvalue, hsum value rate hvalue hrate⟩

end Returns
end Iaam
