import Iaam.Theorems.TransferPairing

/-! Normalisation and the gate. What normalisation makes of an operation passes the gate, with the settlement that
the core computes for itself; the one thing that stops it is a settlement out of the range of the amounts, which the
unchecked additions of a trade do not catch. -/

namespace Iaam

/-- The quantity and the price, where there are any, are positive, and the fee of the basis rounds to something. -/
def OperationKind.Admissible : OperationKind → Prop
  | .buy _ _ quantity _ _ basisFee _ _ | .sell _ _ quantity _ _ basisFee _ _ =>
    0 < quantity.val ∧ ∀ fee posted, basisFee = some fee →
      (⟨fee.value.abs, fee.currency⟩ : CalcMoney).roundedMinor = .ok posted → 1 ≤ posted.raw
  | .openingPosition _ _ quantity _ _ _ => 0 < quantity.val
  | .valuation _ price _ _ => 0 < price.val
  | _ => True

namespace Operation
open Outcome

/-! ### What the checks let through -/

section
variable {a : PostedMinor} {v : Option PostedMinor} {currency : CurrencyCode} {field : String}

theorem positive_iff {m : PostedMinor} : positive a field currency = .ok m ↔ 0 < a.raw ∧ m = a := by
  constructor
  · intro h
    obtain ⟨rfl, hpos⟩ := positive_ok h
    exact ⟨hpos, rfl⟩
  · rintro ⟨hpos, rfl⟩
    exact positive_of_pos hpos field

theorem positive_ne_panic : positive a field currency ≠ .error .panic := by
  unfold positive
  split <;> simp [reject]

theorem positiveMoney_iff {m : Money} : positiveMoney a field currency = .ok m ↔ 0 < a.raw ∧ m = ⟨a, currency⟩ := by
  constructor
  · intro h
    obtain ⟨rfl, hpos⟩ := positiveMoney_ok h
    exact ⟨hpos, rfl⟩
  · rintro ⟨hpos, rfl⟩
    exact positiveMoney_of_pos hpos field

theorem positiveMoney_ne_panic : positiveMoney a field currency ≠ .error .panic :=
  bind_ne_panic positive_ne_panic fun _ _ => by simp

theorem negMinor_ne_panic (h : 0 < a.raw) : negMinor a ≠ .error .panic := by
  obtain ⟨n, hn, -⟩ := exists_negated h
  simp [negMinor, hn]

theorem negatedMoney_iff {m : Money} :
    negatedMoney a currency = .ok m ↔ 0 < a.raw ∧ m.amount.raw = -a.raw ∧ m.currency = currency := by
  unfold negatedMoney
  constructor
  · intro h
    obtain ⟨value, hvalue, hnegate⟩ := bind_ok.mp h
    obtain ⟨hpos, rfl⟩ := positive_iff.mp hvalue
    obtain ⟨n, hn, hm⟩ := bind_ok.mp hnegate
    cases hm
    exact ⟨hpos, PostedMinor.ofInt_eq_some.mp (orPanic_ok.mp hn), rfl⟩
  · rintro ⟨hpos, hraw, rfl⟩
    exact negatedMoney_of_pos hpos (PostedMinor.ofInt_eq_some.mpr hraw)

theorem negatedMoney_ne_panic : negatedMoney a currency ≠ .error .panic := by
  refine bind_ne_panic positive_ne_panic fun value hvalue => ?_
  obtain ⟨hpos, rfl⟩ := positive_iff.mp hvalue
  exact bind_ne_panic (negMinor_ne_panic hpos) fun _ _ => by simp

theorem optionalMoney_iff {m : Option Money} :
    optionalMoney field v currency = .ok m ↔ (∀ x ∈ v, 0 < x.raw) ∧ m = v.map fun x => ⟨x, currency⟩ := by
  cases v with
  | none => simp [optionalMoney, eq_comm]
  | some x =>
    simp only [optionalMoney, Option.mem_def, Option.some.injEq, forall_eq', Option.map_some]
    constructor
    · intro h
      obtain ⟨money, hmoney, h⟩ := bind_ok.mp h
      obtain ⟨hpos, rfl⟩ := positiveMoney_iff.mp hmoney
      cases h
      exact ⟨hpos, rfl⟩
    · rintro ⟨hpos, rfl⟩
      exact bind_ok.mpr ⟨_, positiveMoney_iff.mpr ⟨hpos, rfl⟩, rfl⟩

theorem optionalMoney_ne_panic : optionalMoney field v currency ≠ .error .panic := by
  cases v with
  | none => simp [optionalMoney]
  | some x => exact bind_ne_panic positiveMoney_ne_panic fun _ _ => by simp

theorem accruedInterestMoney_iff {m : Option Money} :
    accruedInterestMoney v currency = .ok m ↔ (∀ x ∈ v, 0 ≤ x.raw) ∧ m = v.map fun x => ⟨x, currency⟩ := by
  cases v with
  | none => simp [accruedInterestMoney, eq_comm]
  | some x =>
    simp only [accruedInterestMoney, Option.mem_def, Option.some.injEq, forall_eq', Option.map_some]
    split_ifs with h
    · simp [h, eq_comm]
    · simp [h, reject]

theorem accruedInterestMoney_ne_panic : accruedInterestMoney v currency ≠ .error .panic := by
  unfold accruedInterestMoney
  split
  · simp
  · split_ifs <;> simp [reject]

theorem basisFeeMoney_ne_panic {fee : Option CalcMoney} : basisFeeMoney fee currency ≠ .error .panic := by
  unfold basisFeeMoney
  split
  · simp
  · split_ifs
    · simp [reject]
    · split <;> simp [reject]

end

/-! ### The settlement of a trade -/

/-- The checks that an operation of a trade passes before its amounts are added. -/
structure PassesChecks (grossMinor : PostedMinor) (feeMinor : Option PostedMinor) (basisFee : Option CalcMoney)
    (accruedInterestMinor : Option PostedMinor) (currency : CurrencyCode) : Prop where
  gross : 0 < grossMinor.raw
  fee : ∀ fee ∈ feeMinor, 0 < fee.raw
  basisFee : ∃ posted,
    basisFeeMoney (basisFee.map fun value => ⟨value.value.abs, value.currency⟩) currency = .ok posted
  accrued : ∀ interest ∈ accruedInterestMinor, 0 ≤ interest.raw

def minorOr (value : Option PostedMinor) : Int := (value.map PostedMinor.raw).getD 0

/-- The largest amount that the unchecked additions of a side reach. -/
def reached (side : TradeSide) (gross interest charge : Int) : Int :=
  match side with
  | .buy => gross + interest + charge
  | .sell => gross + interest

section
variable {α : Type} {side : TradeSide} {gross interest charge : PostedMinor}

/-- An amount that is not negative is out of range above. -/
theorem ofInt_none_iff {n : Int} (hn : 0 ≤ n) : PostedMinor.ofInt n = none ↔ 2 ^ 63 ≤ n := by
  unfold PostedMinor.ofInt
  by_cases h : FitsI64 n
  · rw [dif_pos h]
    exact ⟨fun hsome => (nomatch hsome), fun hle => absurd hle (not_le.mpr h.2)⟩
  · rw [dif_neg h]
    exact ⟨fun _ => not_lt.mp fun hlt => h ⟨by omega, hlt⟩, fun _ => rfl⟩

theorem settle_panic_iff (hgross : 0 < gross.raw) (hinterest : 0 ≤ interest.raw) (hcharge : 0 ≤ charge.raw)
    {k : PostedMinor → Built α} (hk : ∀ s, k s ≠ .error .panic) :
    (addMinor gross interest >>= fun withInterest =>
      match side with
      | .buy => addMinor withInterest charge >>= k
      | .sell => subMinor withInterest charge >>= k) = .error .panic ↔
        2 ^ 63 ≤ reached side gross.raw interest.raw charge.raw := by
  rw [bind_error, addMinor, orPanic_panic, PostedMinor.checkedAdd, ofInt_none_iff (by omega)]
  constructor
  · rintro (hover | ⟨withInterest, hadd, hrest⟩)
    · cases side <;> simp only [reached] <;> omega
    · have hraw : withInterest.raw = gross.raw + interest.raw := PostedMinor.ofInt_eq_some.mp (orPanic_ok.mp hadd)
      cases side with
      | buy =>
        rcases bind_error.mp hrest with hover | ⟨s, -, hpanic⟩
        · rw [addMinor, orPanic_panic, PostedMinor.checkedAdd, hraw, ofInt_none_iff (by omega)] at hover
          exact hover
        · exact absurd hpanic (hk s)
      | sell =>
        rcases bind_error.mp hrest with hover | ⟨s, -, hpanic⟩
        · rw [subMinor, orPanic_panic, PostedMinor.checkedSub] at hover
          have hfits := withInterest.fits
          have hcharged := charge.fits
          unfold FitsI64 at hfits hcharged
          obtain ⟨n, hn⟩ : ∃ n, PostedMinor.ofInt (withInterest.raw - charge.raw) = some n :=
            ⟨⟨withInterest.raw - charge.raw, by unfold FitsI64; omega⟩, PostedMinor.ofInt_eq_some.mpr rfl⟩
          rw [hn] at hover
          cases hover
        · exact absurd hpanic (hk s)
  · intro hreached
    by_cases hover : 2 ^ 63 ≤ gross.raw + interest.raw
    · exact .inl hover
    · cases side with
      | sell => exact absurd hreached hover
      | buy =>
        have hfits : FitsI64 (gross.raw + interest.raw) := by
          unfold FitsI64
          omega
        refine .inr ⟨⟨_, hfits⟩, orPanic_ok.mpr (PostedMinor.ofInt_eq_some.mpr rfl), bind_error.mpr (.inl ?_)⟩
        rw [addMinor, orPanic_panic, PostedMinor.checkedAdd, ofInt_none_iff (by simp only; omega)]
        exact hreached

end

section
variable {side : TradeSide} {instrument : InstrumentId} {quantity : Dec} {grossMinor : PostedMinor}
  {feeMinor accruedMinor : Option PostedMinor} {basisFee : Option CalcMoney} {currency : CurrencyCode}

theorem minor_getD (v : Option PostedMinor) (currency : CurrencyCode) :
    (((v.map fun x => (⟨x, currency⟩ : Money)).map Money.amount).getD .zero).raw = minorOr v := by
  cases v <;> rfl

theorem minorOr_nonneg {v : Option PostedMinor} (h : ∀ x ∈ v, 0 ≤ x.raw) : 0 ≤ minorOr v := by
  cases v with
  | none => exact le_rfl
  | some x => exact h x rfl

theorem tradeTerms_panic_iff :
    tradeTerms side instrument quantity grossMinor feeMinor basisFee accruedMinor currency = .error .panic ↔
      PassesChecks grossMinor feeMinor basisFee accruedMinor currency ∧
        2 ^ 63 ≤ reached side grossMinor.raw (minorOr accruedMinor) (minorOr feeMinor) := by
  unfold tradeTerms feeMoney
  rw [bind_panic positiveMoney_ne_panic]
  constructor
  · rintro ⟨gross, hgross, h⟩
    obtain ⟨fee, hfee, h⟩ := (bind_panic optionalMoney_ne_panic).mp h
    obtain ⟨posted, hposted, h⟩ := (bind_panic basisFeeMoney_ne_panic).mp h
    obtain ⟨accrued, haccrued, h⟩ := (bind_panic accruedInterestMoney_ne_panic).mp h
    obtain ⟨hpos, rfl⟩ := positiveMoney_iff.mp hgross
    obtain ⟨hcharge, rfl⟩ := optionalMoney_iff.mp hfee
    obtain ⟨hinterest, rfl⟩ := accruedInterestMoney_iff.mp haccrued
    refine ⟨⟨hpos, hcharge, ⟨posted, hposted⟩, hinterest⟩, ?_⟩
    rw [← minor_getD accruedMinor currency, ← minor_getD feeMinor currency]
    refine (settle_panic_iff hpos ?_ ?_ ?_).mp h
    · rw [minor_getD]
      exact minorOr_nonneg hinterest
    · rw [minor_getD]
      exact minorOr_nonneg fun x hx => (hcharge x hx).le
    · intro settlement hpanic
      cases hpanic
  · rintro ⟨hpass, hreached⟩
    obtain ⟨posted, hposted⟩ := hpass.basisFee
    refine ⟨_, positiveMoney_iff.mpr ⟨hpass.gross, rfl⟩, (bind_panic optionalMoney_ne_panic).mpr
      ⟨_, optionalMoney_iff.mpr ⟨hpass.fee, rfl⟩, (bind_panic basisFeeMoney_ne_panic).mpr
      ⟨posted, hposted, (bind_panic accruedInterestMoney_ne_panic).mpr
      ⟨_, accruedInterestMoney_iff.mpr ⟨hpass.accrued, rfl⟩, ?_⟩⟩⟩⟩
    refine (settle_panic_iff hpass.gross ?_ ?_ ?_).mpr ?_
    · rw [minor_getD]
      exact minorOr_nonneg hpass.accrued
    · rw [minor_getD]
      exact minorOr_nonneg fun x hx => (hpass.fee x hx).le
    · intro settlement hpanic
      cases hpanic
    · rw [minor_getD, minor_getD]
      exact hreached

/-- The terms of a trade that is accepted, and its settlement before the side signs it. -/
theorem tradeTerms_ok {terms : Trade} {settlement : PostedMinor}
    (h : tradeTerms side instrument quantity grossMinor feeMinor basisFee accruedMinor currency =
      .ok (terms, settlement)) :
    PassesChecks grossMinor feeMinor basisFee accruedMinor currency ∧
      terms.side = side ∧ terms.instrument = instrument ∧ terms.quantity = quantity ∧
      terms.gross = ⟨grossMinor, currency⟩ ∧ terms.fee = feeMinor.map (fun x => ⟨x, currency⟩) ∧
      terms.accruedInterest = accruedMinor.map (fun x => ⟨x, currency⟩) ∧
      terms.basisFeeExact = basisFee.map (fun value => ⟨value.value.abs, value.currency⟩) ∧
      basisFeeMoney terms.basisFeeExact currency = .ok terms.basisFee ∧
      reached side grossMinor.raw (minorOr accruedMinor) (minorOr feeMinor) < 2 ^ 63 ∧
      settlement.raw = (match side with
        | .buy => grossMinor.raw + minorOr accruedMinor + minorOr feeMinor
        | .sell => grossMinor.raw + minorOr accruedMinor - minorOr feeMinor) := by
  obtain ⟨gross, hgross, h⟩ := bind_ok.mp h
  obtain ⟨fee, hfee, h⟩ := bind_ok.mp h
  obtain ⟨posted, hposted, h⟩ := bind_ok.mp h
  obtain ⟨accrued, haccrued, h⟩ := bind_ok.mp h
  obtain ⟨withInterest, hadd, h⟩ := bind_ok.mp h
  obtain ⟨hpos, rfl⟩ := positiveMoney_iff.mp hgross
  obtain ⟨hcharge, rfl⟩ := optionalMoney_iff.mp hfee
  obtain ⟨hinterest, rfl⟩ := accruedInterestMoney_iff.mp haccrued
  have hraw := PostedMinor.ofInt_eq_some.mp (orPanic_ok.mp hadd)
  rw [minor_getD] at hraw
  cases side with
  | buy =>
    obtain ⟨settled, hsettled, h⟩ := bind_ok.mp h
    cases h
    have hsum := PostedMinor.ofInt_eq_some.mp (orPanic_ok.mp hsettled)
    rw [minor_getD, hraw] at hsum
    exact ⟨⟨hpos, hcharge, ⟨posted, hposted⟩, hinterest⟩, rfl, rfl, rfl, rfl, rfl, rfl, rfl, hposted,
      lt_of_eq_of_lt hsum.symm settlement.fits.2, hsum⟩
  | sell =>
    obtain ⟨settled, hsettled, h⟩ := bind_ok.mp h
    cases h
    have hsum := PostedMinor.ofInt_eq_some.mp (orPanic_ok.mp hsettled)
    rw [minor_getD, hraw] at hsum
    exact ⟨⟨hpos, hcharge, ⟨posted, hposted⟩, hinterest⟩, rfl, rfl, rfl, rfl, rfl, rfl, rfl, hposted,
      lt_of_eq_of_lt hraw.symm withInterest.fits.2, hsum⟩

end

/-! ### When the arithmetic is stopped -/

/-- A dated trade that passes its checks has amounts whose sum is out of range. -/
def Exceeds (operation : SubmittedOperation) : Prop :=
  operation.dates.toEventDates.effectiveDate.isSome = true ∧
    match operation.kind with
    | .buy _ _ _ gross fee basisFee accrued currency =>
      PassesChecks gross fee basisFee accrued currency ∧ 2 ^ 63 ≤ gross.raw + minorOr accrued + minorOr fee
    | .sell _ _ _ gross fee basisFee accrued currency =>
      PassesChecks gross fee basisFee accrued currency ∧ 2 ^ 63 ≤ gross.raw + minorOr accrued
    | _ => False

/-- The trades are the only operations whose arithmetic can be stopped. -/
theorem build_panic_iff {transferId : TransferId} {account : AccountId} {kind : OperationKind} :
    build transferId account kind = .error .panic ↔
      match kind with
      | .buy _ _ _ gross fee basisFee accrued currency =>
        PassesChecks gross fee basisFee accrued currency ∧ 2 ^ 63 ≤ gross.raw + minorOr accrued + minorOr fee
      | .sell _ _ _ gross fee basisFee accrued currency =>
        PassesChecks gross fee basisFee accrued currency ∧ 2 ^ 63 ≤ gross.raw + minorOr accrued
      | _ => False := by
  cases kind with
  | buy instrument custody quantity gross fee basisFee accrued currency =>
    dsimp only [build]
    rw [bind_error, tradeTerms_panic_iff]
    refine ⟨fun h => h.resolve_right ?_, .inl⟩
    rintro ⟨⟨terms, settlement⟩, hterms, hrest⟩
    obtain ⟨hpass, -, -, -, -, -, -, -, -, -, hraw⟩ := tradeTerms_ok hterms
    have hpos : 0 < settlement.raw := by
      have := minorOr_nonneg hpass.accrued
      have := minorOr_nonneg fun x hx => (hpass.fee x hx).le
      have := hpass.gross
      dsimp only at hraw
      omega
    exact bind_ne_panic (negMinor_ne_panic hpos) (fun _ _ => by simp) hrest
  | sell instrument custody quantity gross fee basisFee accrued currency =>
    dsimp only [build]
    rw [bind_error, tradeTerms_panic_iff]
    refine ⟨fun h => h.resolve_right ?_, .inl⟩
    rintro ⟨⟨terms, settlement⟩, -, hrest⟩
    dsimp only at hrest
    split at hrest <;> simp [reject] at hrest
  | transfer target amountMinor currency =>
    simp only [build, iff_false]
    split_ifs
    · simp [reject]
    · refine bind_ne_panic positiveMoney_ne_panic fun amount _ => ?_
      split <;> simp [reject]
  | ownAccountMovement movement amountMinor currency =>
    simp only [build, iff_false]
    refine bind_ne_panic positive_ne_panic fun magnitude hmagnitude => ?_
    obtain ⟨hpos, rfl⟩ := positive_iff.mp hmagnitude
    rcases movement with _ | _ | _
    · simp
    · simp
    · exact bind_ne_panic (negMinor_ne_panic hpos) fun _ _ => by simp
  | withdrawal | fee | tax =>
    simp only [build, iff_false]
    exact bind_ne_panic negatedMoney_ne_panic fun _ _ => by simp
  | deposit | refund | income | statedSecuritiesValue =>
    simp only [build, iff_false]
    exact bind_ne_panic positiveMoney_ne_panic fun _ _ => by simp
  | openingPosition =>
    simp only [build, iff_false]
    exact bind_ne_panic optionalMoney_ne_panic fun _ _ => by simp
  | openingCash | valuation => simp [build]

theorem normalize_panic_iff {fresh : Fresh} {operation : SubmittedOperation} {context : NormalizationContext} :
    normalize fresh operation context = .error .panic ↔ Exceeds operation := by
  unfold normalize Exceeds
  dsimp only
  cases operation.dates.toEventDates.effectiveDate with
  | none => simp [reject]
  | some day =>
    simp only [Option.isSome_some, true_and]
    rw [← @build_panic_iff fresh.transfer operation.account operation.kind, bind_error]
    refine ⟨fun h => h.resolve_right ?_, .inl⟩
    rintro ⟨built, -, hrest⟩
    cases hrest

/-! ### What the gate accepts -/

section
variable {e : Event} {name : String} {account : AccountId} {amount : Money}

theorem requireEqual_self (name : String) (amount : Money) : requireEqual name amount amount = .ok () := by
  simp [requireEqual]

theorem requirePositive_of {value : Int} (h : 0 < value) (name field : String) :
    requirePositive name field value = .ok () := if_pos h

theorem expectSingleCash_of {sign : Sign} (hlegs : e.legs = [.cash account amount])
    (hpositive : sign = .positive → 0 < amount.amount.raw) (hnegative : sign = .negative → amount.amount.raw < 0) :
    e.expectSingleCash name amount sign = .ok () := by
  have hcash : e.cashLegs = [.cash account amount] := by
    simp [Event.cashLegs, Event.legsOfKind, hlegs, Leg.cash]
  have hmoney : singleLegMoney name e.cashLegs "exactly one monetary leg" = .ok amount := by
    rw [hcash]
    rfl
  unfold Event.expectSingleCash
  rw [hmoney]
  cases sign with
  | positive => simp [hpositive rfl, requireEqual_self]
  | negative => simp [hnegative rfl, requireEqual_self]
  | any => simp [requireEqual_self]

theorem expectSingleCharge_of {kind : LegKind} {leg : Leg} {expected : String} (hlegs : e.legs = [leg])
    (hkind : leg.kind = kind) (hmoney : leg.money = some amount) (hnegative : amount.amount.raw < 0) :
    e.expectSingleCharge kind expected name amount = .ok () := by
  have hcharge : singleLegMoney name (e.legsOfKind kind) expected = .ok amount := by
    simp [singleLegMoney, singleLeg, Event.legsOfKind, hlegs, hkind, legMoney, hmoney]
  unfold Event.expectSingleCharge
  rw [hcharge]
  simp [not_le.mpr hnegative, requireEqual_self]

/-- A trade passes when its two legs are the settlement and the signed quantity, and its fees agree. -/
theorem validateTrade_of {terms : Trade} {security : Leg} {quantity : Quantity}
    (hgross : 0 < terms.gross.amount.raw) (hquantity : 0 < terms.quantity.val)
    (hposted : Event.requirePostedFee name terms = .ok ()) (hexact : Event.requireExactFee terms = .ok ())
    (hagree : Event.requireFeesAgree name terms = .ok ()) (hcash : e.cashLegs = [.cash e.account amount])
    (hsettlement : tradeSettlement terms.side terms.gross terms.fee terms.accruedInterest = .ok amount)
    (hsecurity : e.securityLegs = [security]) (haccount : security.account = e.account)
    (hinstrument : security.instrument = some terms.instrument)
    (hsigned : tradeQuantity terms.side terms.quantity = .ok quantity) (hheld : security.quantity = some quantity) :
    e.validateTrade name terms = .ok () := by
  have hpositive : requirePositiveQuantity name "quantity" terms.quantity = .ok () := by
    simp [requirePositiveQuantity, Dec.isPositive, hquantity]
  unfold Event.validateTrade
  rw [requirePositive_of hgross, hpositive, hposted, hexact, hagree, hcash, hsecurity, hsettlement, hsigned]
  simp [singleLeg, legMoney, Leg.cash, requireOwnAccount, requireEqual_self, haccount, requireSameInstrument, hinstrument,
    requireSameQuantity, hheld, Except.mapError]

end

theorem withOptional_tryAdd_of {amount m : Money} {v : Option PostedMinor}
    (hraw : m.amount.raw = amount.amount.raw + minorOr v) (hcurrency : m.currency = amount.currency) :
    amount.withOptional Money.tryAdd (v.map fun x => ⟨x, amount.currency⟩) = .ok m := by
  cases v with
  | none =>
    rw [Money.ext_raw (hraw.trans (add_zero _)) hcurrency]
    rfl
  | some x => exact Money.tryAdd_ok.mpr ⟨rfl, hraw, hcurrency⟩

theorem withOptional_trySub_of {amount m : Money} {v : Option PostedMinor}
    (hraw : m.amount.raw = amount.amount.raw - minorOr v) (hcurrency : m.currency = amount.currency) :
    amount.withOptional Money.trySub (v.map fun x => ⟨x, amount.currency⟩) = .ok m := by
  cases v with
  | none =>
    rw [Money.ext_raw (hraw.trans (sub_zero _)) hcurrency]
    rfl
  | some x => exact Money.trySub_ok.mpr ⟨rfl, hraw, hcurrency⟩

/-- The core computes the settlement that the operation was built with. -/
theorem tradeSettlement_of {side : TradeSide} {gross n : PostedMinor} {fee accrued : Option PostedMinor}
    {currency : CurrencyCode} (hgross : 0 < gross.raw) (hfee : ∀ x ∈ fee, 0 < x.raw) (haccrued : ∀ x ∈ accrued, 0 ≤ x.raw)
    (hfits : reached side gross.raw (minorOr accrued) (minorOr fee) < 2 ^ 63)
    (hn : n.raw = match side with
      | .buy => -(gross.raw + minorOr accrued + minorOr fee)
      | .sell => gross.raw + minorOr accrued - minorOr fee) :
    tradeSettlement side ⟨gross, currency⟩ (fee.map fun x => ⟨x, currency⟩) (accrued.map fun x => ⟨x, currency⟩) =
      .ok ⟨n, currency⟩ := by
  have hinterest := minorOr_nonneg haccrued
  have hcharge := minorOr_nonneg fun x hx => (hfee x hx).le
  have hsum : FitsI64 (gross.raw + minorOr accrued) := by
    refine ⟨by omega, lt_of_le_of_lt ?_ hfits⟩
    cases side <;> simp only [reached] <;> omega
  unfold tradeSettlement
  rw [bind_ok]
  refine ⟨⟨⟨_, hsum⟩, currency⟩, withOptional_tryAdd_of rfl rfl, ?_⟩
  cases side with
  | buy =>
    dsimp only at hn ⊢
    have hwhole : FitsI64 (gross.raw + minorOr accrued + minorOr fee) := ⟨by omega, hfits⟩
    rw [bind_ok]
    exact ⟨⟨⟨_, hwhole⟩, currency⟩, withOptional_tryAdd_of rfl rfl, Money.checkedNegate_ok.mpr ⟨hn, rfl⟩⟩
  | sell => exact withOptional_trySub_of hn rfl

/-- The posted fee of the basis and its exact value agree, as the gate asks. -/
theorem fees_agree {terms : Trade} {name : String} {currency : CurrencyCode} (hgross : terms.gross.currency = currency)
    (hfee : basisFeeMoney terms.basisFeeExact currency = .ok terms.basisFee)
    (habs : ∀ exact ∈ terms.basisFeeExact, exact.value.abs = exact.value)
    (hrounds : ∀ exact ∈ terms.basisFeeExact, ∀ posted, exact.roundedMinor = .ok posted → 1 ≤ posted.raw) :
    Event.requirePostedFee name terms = .ok () ∧ Event.requireExactFee terms = .ok () ∧
      Event.requireFeesAgree name terms = .ok () := by
  unfold Event.requirePostedFee Event.requireExactFee Event.requireFeesAgree
  cases hexact : terms.basisFeeExact with
  | none =>
    rw [hexact] at hfee
    cases hposted : terms.basisFee with
    | none => exact ⟨rfl, rfl, rfl⟩
    | some posted =>
      rw [hposted] at hfee
      cases hfee
  | some exact =>
    rw [hexact] at hfee habs hrounds
    simp only [basisFeeMoney] at hfee
    split_ifs at hfee with hcurrency
    · cases hfee
    · have hcurrency := not_not.mp hcurrency
      have hvalue : (⟨exact.value.abs, currency⟩ : CalcMoney) = exact := by
        rw [habs exact rfl, ← hcurrency]
      rw [hvalue] at hfee
      split at hfee
      · next posted hrounded =>
        have hposted : terms.basisFee = some ⟨posted, currency⟩ := (Except.ok.inj hfee).symm
        have hpositive : requirePositive name "basis_fee" posted.raw = .ok () :=
          requirePositive_of (hrounds exact rfl posted hrounded) name _
        rw [hposted]
        simp [hpositive, Event.requireSameCurrency, hgross, hcurrency, hrounded, Except.mapError]
      · cases hfee

theorem securityLegs_of {e : Event} {money : Money} {custody : Option CustodyId} {instrument : InstrumentId}
    {quantity : Quantity} (hlegs : e.legs = [.cash e.account money, securityLeg e.account custody instrument quantity]) :
    e.cashLegs = [.cash e.account money] ∧ e.securityLegs = [securityLeg e.account custody instrument quantity] ∧
      (securityLeg e.account custody instrument quantity).account = e.account ∧
      (securityLeg e.account custody instrument quantity).instrument = some instrument ∧
      (securityLeg e.account custody instrument quantity).quantity = some quantity := by
  cases custody <;> simp [Event.cashLegs, Event.securityLegs, Event.legsOfKind, hlegs, Leg.cash, securityLeg, Leg.security,
    Leg.securityWithoutCustody]

/-- A trade built of its terms and its settlement passes. -/
theorem trade_accepted {e : Event} {name : String} {side : TradeSide} {instrument : InstrumentId}
    {custody : Option CustodyId} {quantity : Dec} {grossMinor settlement n : PostedMinor}
    {feeMinor accruedMinor : Option PostedMinor} {basisFee : Option CalcMoney} {currency : CurrencyCode} {terms : Trade}
    {signed : Quantity} (hquantity : 0 < quantity.val)
    (hrounds : ∀ fee posted, basisFee = some fee →
      (⟨fee.value.abs, fee.currency⟩ : CalcMoney).roundedMinor = .ok posted → 1 ≤ posted.raw)
    (hterms : tradeTerms side instrument quantity grossMinor feeMinor basisFee accruedMinor currency =
      .ok (terms, settlement))
    (hn : n.raw = match side with
      | .buy => -settlement.raw
      | .sell => settlement.raw)
    (hsigned : tradeQuantity side quantity = .ok signed)
    (hlegs : e.legs = [.cash e.account ⟨n, currency⟩, securityLeg e.account custody instrument signed]) :
    e.validateTrade name terms = .ok () := by
  obtain ⟨hpass, hside, hinstrument, hheld, hgross, hfee, haccrued, hexact, hposted, hfits, hraw⟩ := tradeTerms_ok hterms
  obtain ⟨hcash, hsecurity, haccount, hleg, hlegQuantity⟩ := securityLegs_of hlegs
  obtain ⟨hpostedOk, hexactOk, hagree⟩ := @fees_agree terms name currency (by rw [hgross]) hposted
    (by
      intro exact hmem
      rw [hexact] at hmem
      obtain ⟨fee, -, rfl⟩ := Option.map_eq_some_iff.mp hmem
      simp [Dec.abs])
    (by
      intro exact hmem posted hrounded
      rw [hexact] at hmem
      obtain ⟨fee, hfee, rfl⟩ := Option.map_eq_some_iff.mp hmem
      exact hrounds fee posted hfee hrounded)
  refine validateTrade_of (by rw [hgross]; exact hpass.gross) (by rw [hheld]; exact hquantity) hpostedOk hexactOk hagree
    hcash ?_ hsecurity haccount (by rw [hleg, hinstrument]) (by rw [hside, hheld]; exact hsigned) hlegQuantity
  rw [hside, hgross, hfee, haccrued]
  refine tradeSettlement_of hpass.gross hpass.fee hpass.accrued hfits ?_
  cases side with
  | buy => exact hn.trans (congrArg (-·) hraw)
  | sell => exact hn.trans hraw

theorem ownMovement_of {e : Event} {name : String} {amount : Money} (hlegs : e.legs = [.cash e.account amount])
    (hne : amount.amount.raw ≠ 0) : e.validateOwnAccountMovement name amount = .ok () := by
  have hcash : e.cashLegs = [.cash e.account amount] := by
    simp [Event.cashLegs, Event.legsOfKind, hlegs, Leg.cash]
  have hsingle : e.expectSingleCash name amount .any = .ok () :=
    expectSingleCash_of hlegs (by rintro ⟨⟩) (by rintro ⟨⟩)
  unfold Event.validateOwnAccountMovement
  rw [if_neg hne, hsingle, hcash]
  simp [Leg.cash]

theorem openingPosition_of {e : Event} {name : String} {custody : Option CustodyId} {instrument : InstrumentId}
    {quantity : Quantity} (hquantity : 0 < quantity.val)
    (hlegs : e.legs = [securityLeg e.account custody instrument quantity]) :
    e.validateOpeningPosition name instrument quantity = .ok () := by
  have hcash : e.cashLegs = [] := by
    cases custody <;> simp [Event.cashLegs, Event.legsOfKind, hlegs, securityLeg, Leg.security, Leg.securityWithoutCustody]
  have hsecurity : e.securityLegs = [securityLeg e.account custody instrument quantity] := by
    cases custody <;> simp [Event.securityLegs, Event.legsOfKind, hlegs, securityLeg, Leg.security,
      Leg.securityWithoutCustody]
  unfold Event.validateOpeningPosition
  rw [hcash, hsecurity]
  cases custody <;> simp [requirePositiveQuantity, hquantity, singleLeg, requireOwnAccount, requireSameInstrument,
    requireSameQuantity, securityLeg, Leg.security, Leg.securityWithoutCustody]

/-- What is built of an admissible operation passes the gate. -/
theorem build_accepted {e : Event} {transferId : TransferId} {kind : OperationKind} (hadmissible : kind.Admissible)
    (h : build transferId e.account kind = .ok (e.kind, e.legs)) : e.validateStructure = .ok () := by
  unfold Event.validateStructure
  cases kind with
  | deposit | refund | income =>
    obtain ⟨amount, hamount, h⟩ := bind_ok.mp h
    obtain ⟨hpos, rfl⟩ := positiveMoney_iff.mp hamount
    obtain ⟨hkind, hlegs⟩ := Prod.mk.inj (Except.ok.inj h)
    rw [← hkind]
    exact expectSingleCash_of hlegs.symm (fun _ => hpos) (by rintro ⟨⟩)
  | withdrawal =>
    obtain ⟨amount, hamount, h⟩ := bind_ok.mp h
    obtain ⟨hpos, hraw, -⟩ := negatedMoney_iff.mp hamount
    obtain ⟨hkind, hlegs⟩ := Prod.mk.inj (Except.ok.inj h)
    rw [← hkind]
    exact expectSingleCash_of hlegs.symm (by rintro ⟨⟩) fun _ => by omega
  | fee | tax =>
    obtain ⟨amount, hamount, h⟩ := bind_ok.mp h
    obtain ⟨hpos, hraw, -⟩ := negatedMoney_iff.mp hamount
    obtain ⟨hkind, hlegs⟩ := Prod.mk.inj (Except.ok.inj h)
    rw [← hkind]
    exact expectSingleCharge_of hlegs.symm rfl rfl (by omega)
  | transfer target amountMinor currency =>
    simp only [build] at h
    split_ifs at h with hself
    · cases h
    · obtain ⟨amount, hamount, h⟩ := bind_ok.mp h
      obtain ⟨hpos, rfl⟩ := positiveMoney_iff.mp hamount
      split at h
      · cases h
      · next outgoing hnegate =>
        obtain ⟨hraw, hcurrency⟩ := Money.checkedNegate_ok.mp hnegate
        obtain ⟨hkind, hlegs⟩ := Prod.mk.inj (Except.ok.inj h)
        exact TransferPairing.validate_transfer hkind.symm hlegs.symm hself hpos hraw hcurrency
  | ownAccountMovement movement amountMinor currency =>
    obtain ⟨magnitude, hmagnitude, hrest⟩ := bind_ok.mp h
    obtain ⟨hpos, rfl⟩ := positive_iff.mp hmagnitude
    rcases movement with _ | _ | _
    · obtain ⟨hkind, hlegs⟩ := Prod.mk.inj (Except.ok.inj hrest)
      rw [← hkind]
      simp [Event.validateUnresolvedOwnAccountMovement, requireNoLegs, requirePositive, ← hlegs, hpos]
    · obtain ⟨hkind, hlegs⟩ := Prod.mk.inj (Except.ok.inj hrest)
      rw [← hkind]
      exact ownMovement_of hlegs.symm hpos.ne'
    · obtain ⟨negated, hnegated, hrest⟩ := bind_ok.mp hrest
      have hraw := PostedMinor.ofInt_eq_some.mp (orPanic_ok.mp hnegated)
      obtain ⟨hkind, hlegs⟩ := Prod.mk.inj (Except.ok.inj hrest)
      rw [← hkind]
      exact ownMovement_of hlegs.symm (by dsimp only; omega)
  | openingCash amountMinor currency =>
    obtain ⟨hkind, hlegs⟩ := Prod.mk.inj (Except.ok.inj h)
    rw [← hkind]
    exact expectSingleCash_of hlegs.symm (by rintro ⟨⟩) (by rintro ⟨⟩)
  | statedSecuritiesValue amountMinor currency =>
    obtain ⟨amount, hamount, h⟩ := bind_ok.mp h
    obtain ⟨hpos, rfl⟩ := positiveMoney_iff.mp hamount
    obtain ⟨hkind, hlegs⟩ := Prod.mk.inj (Except.ok.inj h)
    rw [← hkind]
    simp [Event.validateStatedSecuritiesValue, requireNoLegs, ← hlegs, hpos]
  | openingPosition instrument custody quantity costBasisMinor currency assertions =>
    obtain ⟨basis, hbasis, h⟩ := bind_ok.mp h
    obtain ⟨hkind, hlegs⟩ := Prod.mk.inj (Except.ok.inj h)
    rw [← hkind]
    exact openingPosition_of hadmissible hlegs.symm
  | valuation instrument price currency quality =>
    obtain ⟨hkind, hlegs⟩ := Prod.mk.inj (Except.ok.inj h)
    rw [← hkind]
    have hprice : 0 < price.val := hadmissible
    simp [Event.validateValuation, requireNoLegs, ← hlegs, hprice]
  | buy instrument custody quantity gross fee basisFee accrued currency =>
    obtain ⟨⟨terms, settlement⟩, hterms, h⟩ := bind_ok.mp h
    obtain ⟨paid, hpaid, h⟩ := bind_ok.mp h
    obtain ⟨hkind, hlegs⟩ := Prod.mk.inj (Except.ok.inj h)
    rw [← hkind]
    exact trade_accepted hadmissible.1 hadmissible.2 hterms (PostedMinor.ofInt_eq_some.mp (orPanic_ok.mp hpaid)) rfl
      hlegs.symm
  | sell instrument custody quantity gross fee basisFee accrued currency =>
    obtain ⟨⟨terms, settlement⟩, hterms, h⟩ := bind_ok.mp h
    dsimp only at h
    split at h
    · cases h
    · next sold hsold =>
      obtain ⟨hkind, hlegs⟩ := Prod.mk.inj (Except.ok.inj h)
      rw [← hkind]
      exact trade_accepted hadmissible.1 hadmissible.2 hterms rfl hsold hlegs.symm

/-! ### Normalisation and the gate -/

/-- The cash leg of a trade is the settlement that the core computes, and no amount of it is out of range. -/
def SettlesAsCore (e : Event) : Prop :=
  ∀ terms, e.kind = .trade terms → ∃ settlement leg,
    tradeSettlement terms.side terms.gross terms.fee terms.accruedInterest = .ok settlement ∧
      e.cashLegs = [leg] ∧ leg.money = some settlement ∧
      settlement.amount.raw = settlementMinor terms.side terms.gross terms.fee terms.accruedInterest

theorem settles_of_gate {e : Event} (h : e.validateStructure = .ok ()) : SettlesAsCore e := by
  intro terms hk
  unfold Event.validateStructure at h
  rw [hk] at h
  dsimp only at h
  obtain ⟨-, h⟩ := seq_ok.mp h
  obtain ⟨-, h⟩ := seq_ok.mp h
  obtain ⟨-, h⟩ := seq_ok.mp h
  obtain ⟨-, h⟩ := seq_ok.mp h
  obtain ⟨-, h⟩ := seq_ok.mp h
  obtain ⟨leg, hleg, h⟩ := bind_ok.mp h
  obtain ⟨money, hmoney, h⟩ := bind_ok.mp h
  obtain ⟨-, h⟩ := seq_ok.mp h
  obtain ⟨settlement, hsettlement, h⟩ := bind_ok.mp h
  obtain ⟨hequal, -⟩ := seq_ok.mp h
  have hsettled := mapError_ok.mp hsettlement
  exact ⟨settlement, leg, hsettled, Gate.singleLeg_ok hleg, Gate.requireEqual_ok hequal ▸ Gate.legMoney_ok hmoney,
    (Gate.tradeSettlement_ok hsettled).2⟩

/-- The outcome of a normalisation that the journal can take: a rejection, or an event that passes the gate and is
    settled as the core computes. -/
def Sound : Built Event → Prop
  | .ok e => e.validateStructure = .ok () ∧ SettlesAsCore e
  | .error (.error _) => True
  | .error .panic => False

/-- Normalisation gives a rejection or an event the gate accepts, unless the amounts of a trade add up out of range. -/
theorem normalize_sound_iff {fresh : Fresh} {operation : SubmittedOperation} {context : NormalizationContext}
    (hadmissible : operation.kind.Admissible) :
    Sound (normalize fresh operation context) ↔ ¬Exceeds operation := by
  rw [← @normalize_panic_iff fresh operation context]
  rcases hnormalized : normalize fresh operation context with (rejection | _) | e
  · simp [Sound]
  · simp [Sound]
  · have hvalid : e.validateStructure = .ok () := by
      unfold normalize at hnormalized
      dsimp only at hnormalized
      split at hnormalized
      · cases hnormalized
      · obtain ⟨⟨kind, legs⟩, hbuilt, hnormalized⟩ := bind_ok.mp hnormalized
        cases hnormalized
        exact build_accepted hadmissible hbuilt
    simp [Sound, hvalid, settles_of_gate hvalid]

/-- One security traded on a known day, for a gross amount and with a fee. -/
def sampleTrade (kind : OperationKind) : SubmittedOperation where
  account := ⟨1⟩
  kind
  dates := ⟨some ⟨10⟩, none, none, none⟩
  sourceTime := none
  idempotencyKey := none
  sourceOperationId := none
  sourcePositionId := none
  sourceCategory := none
  ownerCategory := none
  sourceCode := none
  sourceKind := none
  description := none
  counterparty := none

def largestMinor : PostedMinor := ⟨2 ^ 63 - 1, by decide⟩

/-- A purchase for the largest amount there is, with a fee of one minor unit. -/
def largestPurchase : SubmittedOperation :=
  sampleTrade (.buy ⟨4⟩ none .one largestMinor (some (.new 1)) none none .rub)

def ordinarySale : SubmittedOperation :=
  sampleTrade (.sell ⟨4⟩ none .one (.new 100000) (some (.new 350)) none (some .zero) .rub)

def sampleFresh : Fresh := ⟨⟨3⟩, ⟨7⟩, fun _ => "f"⟩
def sampleContext : NormalizationContext := ⟨⟨0⟩, ⟨2⟩, "test/1"⟩

/-- The fee takes the sum out of the range, and nothing refuses it. -/
theorem largestPurchase_overflows : largestPurchase.kind.Admissible ∧
    normalize sampleFresh largestPurchase sampleContext = .error .panic := by
  refine ⟨⟨by decide, fun _ _ hfee => (nomatch hfee)⟩, normalize_panic_iff.mpr ⟨rfl, ⟨by decide, ?_, ⟨none, rfl⟩, ?_⟩, ?_⟩⟩
  · intro x hx
    cases hx
    decide
  · intro x hx
    cases hx
  · decide

theorem ordinarySale_sound : Sound (normalize sampleFresh ordinarySale sampleContext) := by
  refine (@normalize_sound_iff sampleFresh ordinarySale sampleContext ⟨by decide, fun _ _ hfee => (nomatch hfee)⟩).mpr ?_
  rintro ⟨-, -, hover⟩
  exact absurd hover (by decide)

end Operation
end Iaam
